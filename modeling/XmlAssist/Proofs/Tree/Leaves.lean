import XmlAssist.Proofs.Tree.Places
import XmlAssist.Proofs.Tree.Shape

/-!
# Leaves

Whatever the text, only elements, document types and the document have children, and elements stand
in nothing but elements and the document: an XML declaration without its `?>` is the one exception
(`Document.parse_leaves`). Every token keeps the nodes in their places (`Builder.Placed.step`), and so
does a whole text (`Builder.build_tidy`).
-/

namespace XmlAssist

open Node
open Text (size)
open Lexer (Reads Falls)

namespace Builder

variable {s : String} {x y : Lexer} {b b' : Builder} {pos : Nat} {spaced : Bool}
variable {kind : Token.Kind} {fault : Option Token.Fault}

/-! ## A step -/

theorem outside_of_agrees (hc : x.Consistent)
    (hmode : x.mode = .inTag ∨ x.mode = .afterEndTagOpen ∨ x.mode = .inEndTag) :
    x.dtdFile = false ∧ x.inDoctype = false ∧ x.inSubset = false ∧ x.inProlog = false := by
  have hm := hc.mode
  have hout := inDoctype_eq_false hc (by rcases hmode with h | h | h <;> simp [h])
  rcases hmode with h | h | h <;> simp only [Lexer.Agrees, h] at hm <;>
  exact ⟨Lexer.dtdFile_eq_false hm.2, hout, Lexer.inSubset_eq_false hm.2, hm.1⟩

/-- A token outside of document types behind which the lexer is in the content of the document or in
an end tag. -/
theorem Placed.outside {mode : Lexer.Mode} (hc : x.Consistent) (h : Placed x b)
    (hmode : x.mode = .inTag ∨ x.mode = .afterEndTagOpen ∨ x.mode = .inEndTag)
    (hy : mode = .content ∨ mode = .inEndTag)
    (hb : Seated false false b b.current → Seated false false b' b'.current) :
    Placed (x.moved pos spaced mode) b' := by
  obtain ⟨hfile, hin, hsubset, hprolog⟩ := outside_of_agrees hc hmode
  have hseated := h.seated_current (by rcases hmode with h | h | h <;> rw [h] <;> rfl)
  rw [hfile, hin] at hseated
  refine placed_of_seated (hb hseated) hfile ?_ ?_ hprolog
  · rcases hy with rfl | rfl <;> simp [Lexer.inDoctype, hsubset]
  · rcases hy with rfl | rfl <;> rfl

/-! ### By token -/

section arms
variable {inDtd : Bool} (hf : Fits s x b) (h : Placed x b)
include hf h

theorem Placed.endTagClose (hc : x.Consistent) (hmode : x.mode = .inEndTag) :
    Placed (x.moved pos spaced .content) (step s b ⟨.endTagClose, x.pos, pos, fault⟩ inDtd) := by
  refine h.outside hc (.inr (.inr hmode)) (.inl rfl) fun hseated => ?_
  rcases hf.inEndTag hmode with ⟨start, -, hpending⟩ | hclosing
  · simp only [Builder.step, tagToken, hpending.endTagOpen, Option.isSome_some, if_true]
    exact hseated.flushEndTag ..
  · obtain ⟨e, he, hclosed, hend⟩ := hclosing.kind
    rw [step_endTagClose he hclosing.endTagOpen hclosed hend]
    exact hseated.finishElement he rfl

theorem Placed.subsetClose (hy : x.YieldsToDeclaration) (hsubset : x.inSubset = true) :
    Placed ({ x with inProlog := false, inSubset := false }.moved pos spaced (.doctype .subset))
      (step s b ⟨.dtd .subsetClose, x.pos, pos, fault⟩ inDtd) := by
  have hseated := h.leaveDeclaration hf hy
  have hin : x.inDoctype = true := by simp [Lexer.inDoctype, hsubset]
  have hstays := stays_onDoctype (b := b.leaveDeclaration) (t := ⟨.dtd .subsetClose, x.pos, pos, fault⟩)
    fun d => { d with subsetStop := some pos }
  rw [hin, ← hstays.current] at hseated
  exact placed_of_seated (hseated.of_places hstays.places hstays.doctype) rfl rfl rfl rfl

theorem Placed.doctypeClose {stage : Lexer.DoctypeStage} (hc : x.Consistent)
    (hmode : x.mode = .doctype stage) :
    Placed ({ x with inSubset := false }.moved pos spaced .content)
      (step s b ⟨.dtd .doctypeClose, x.pos, pos, fault⟩ inDtd) := by
  have hm := hc.mode
  have hseated := h.seated_current (by rw [hmode]; rfl)
  simp only [Lexer.Agrees, hmode] at hm
  have hfile := Lexer.dtdFile_eq_false hm.2.1
  have hin : x.inDoctype = true := by simp [Lexer.inDoctype, hmode]
  rw [hfile, hin] at hseated
  rw [step_dtd]
  exact placed_of_seated (hseated.doctypeClose (hf.inDoctype hmode).declaration) hfile rfl rfl hm.1

theorem Placed.instructionTarget (hmode : x.mode = .afterInstructionOpen) :
    Placed (x.moved pos spaced .inInstruction)
      (step s b ⟨.instructionTarget, x.pos, pos, fault⟩ inDtd) := by
  obtain ⟨-, -, p, hkind, hprolog⟩ := hf.afterInstructionOpen hmode
  rw [step_instructionTarget hkind]
  refine h.keepMode (stays_update ?_) hmode rfl
  rw [hkind]
  simp [Kind.role, hprolog]

variable (hle : x.pos ≤ pos) (hsize : pos ≤ size s)
include hle hsize

theorem Placed.enclosedClose (hprolog : x.inProlog = false)
    (hmode : x.mode = .inComment ∨ x.mode = .inCData) (hk : kind = .commentClose ∨ kind = .cdataClose) :
    Placed (x.moved pos spaced x.contentMode) (step s b ⟨kind, x.pos, pos, fault⟩ inDtd) := by
  obtain ⟨hsteady, c, hkind⟩ := hf.inEnclosed hmode
  obtain ⟨-, hp, hdoctype⟩ := hsteady.enclosedClose fault inDtd hkind hk hle hsize
  exact h.leaveContent hp (places_enclosedClose fault inDtd hkind hk) hdoctype
    (by rcases hmode with hmode | hmode <;> rw [hmode] <;> rfl) hprolog

theorem Placed.instructionClose (hprolog : x.inProlog = false) (hmode : x.mode = .inInstruction) :
    Placed (x.moved pos spaced x.contentMode)
      (step s b ⟨.instructionClose, x.pos, pos, fault⟩ inDtd) := by
  obtain ⟨hsteady, p, hkind⟩ := hf.inInstruction hmode
  obtain ⟨-, hp, hdoctype⟩ := hsteady.instructionClose fault inDtd hkind (.inl rfl) hle hsize
  refine h.leaveContent hp ?_ hdoctype (by rw [hmode]; rfl) hprolog
  obtain ⟨around, hplace⟩ := h.instruction (by rw [hmode]; rfl)
  rw [step_close_of_instruction hkind (.inl rfl)]
  refine places_update (b := { b with openAttribute := none }) ?_
  exact (role_of_places (b := { b with openAttribute := none }) hplace).trans (by simp [Kind.role])

theorem Placed.declarationClose {stage : Lexer.DeclarationStage} (hprolog : x.inProlog = false)
    (hmode : x.mode = .declaration stage) :
    Placed (x.moved pos spaced .dtdContent)
      (step s b ⟨.dtd .declarationClose, x.pos, pos, fault⟩ inDtd) := by
  have hdeclaring := hf.inDeclaration hmode
  obtain ⟨-, hp, hdoctype⟩ :=
    hdeclaring.close (t := ⟨.dtd .declarationClose, x.pos, pos, fault⟩) inDtd hle hsize
  obtain ⟨d, hd⟩ := hdeclaring.kind
  refine h.leave hp ?_ hdoctype (by rw [hmode]; rfl) rfl rfl (by simp [Lexer.inDoctype, hmode]) hprolog
  rw [step_dtd]
  simp only [dtdToken, hdeclaring.declaration, hd]
  exact places_update (by rw [hd]; rfl)

end arms

theorem Placed.step (hc : x.Consistent) (hf : Fits s x b) (h : Placed x b)
    (hr : Reads x pos spaced kind y) (hlt : x.pos < pos) (hsize : pos ≤ size s) :
    Placed y (step s b ⟨kind, x.pos, pos, fault⟩ y.inDtd) := by
  have hle := Nat.le_of_lt hlt
  have hm := hc.mode
  cases hr with
  | blank hblank =>
    refine h.keep (.refl b) rfl rfl rfl id (fun hm => ?_) rfl
    rw [Lexer.moved_mode] at hm
    simp [Lexer.ReadsBlank, hm] at hblank
  | content hy hk =>
    have hfile := hc.dtdFile_of_yieldsToContent hy
    exact h.step_content hc hf hy hk (by simp [Lexer.inDtd, hfile])
  | declaration hy hk => exact h.step_declaration hc hf hy hk (hc.inDtd_of_yieldsToDeclaration hy)
  | startTagName hmode => exact h.keepMode (stays_startTagName ..) hmode rfl
  | startTagClose hmode => exact h.keepMode (stays_startTagClose ..) hmode rfl
  | startTagSelfClose hmode =>
    exact h.outside hc (.inl hmode) (.inl rfl) fun hseated => hseated.startTagSelfClose
  | endTagName hmode =>
    obtain ⟨start, -, hpending⟩ := hf.afterEndTagOpen hmode
    rw [step_endTagName]
    exact h.outside hc (.inr (.inl hmode)) (.inr rfl) fun hseated => hseated.endTag hpending.endTagOpen
  | endTagClose hmode => exact h.endTagClose hf hc hmode
  | unknown hmode =>
    refine h.keep (stays_unknown ..) rfl rfl rfl id (fun hm => ?_) rfl
    rw [Lexer.moved_mode] at hm
    simp [hm] at hmode
  | attributeName hmode =>
    rw [step_attributeName]
    rcases hmode with hmode | hmode <;>
    exact h.attributeName (by rw [hmode]; rfl) rfl (by simp [Lexer.inDoctype, hmode]) rfl rfl rfl
  | assign hmode =>
    rw [step_assign]
    exact h.keepMode (stays_assign ..) hmode rfl
  | attributeValue hmode =>
    rw [step_attributeValue]
    exact h.keepTag (stays_attributeValue ..) (.inr hmode)
  | commentText hmode =>
    obtain ⟨-, c, hkind⟩ := hf.inEnclosed (.inl hmode)
    exact h.keepMode (stays_enclosedText fault x.inDtd hkind (.inl rfl)) hmode rfl
  | cdataText hmode =>
    obtain ⟨-, c, hkind⟩ := hf.inEnclosed (.inr hmode)
    exact h.keepMode (stays_enclosedText fault x.inDtd hkind (.inr rfl)) hmode rfl
  | commentClose hmode =>
    simp only [Lexer.Agrees, hmode] at hm
    exact h.enclosedClose hf hle hsize hm (.inl hmode) (.inl rfl)
  | cdataClose hmode =>
    simp only [Lexer.Agrees, hmode] at hm
    exact h.enclosedClose hf hle hsize hm.1 (.inr hmode) (.inr rfl)
  | prologName hmode hpos =>
    have hsubset : x.inSubset = false :=
      Bool.eq_false_iff.mpr fun hs => absurd (hc.subset hs) (by omega)
    exact h.prologName (hf.afterInstructionOpen hmode).1.nested.arena hmode hsubset
  | prologClose hmode =>
    simp only [Lexer.Agrees, hmode] at hm
    exact h.prologClose (hf.inTag (by simp [hmode])).1.nested.arena hm.1 hm.2
  | instructionTarget hmode => exact h.instructionTarget hf hmode
  | instructionContent hmode =>
    obtain ⟨-, p, hkind⟩ := hf.inInstruction hmode
    rw [step_instructionContent hkind]
    exact h.keepMode (stays_update (by rw [hkind]; rfl)) hmode rfl
  | instructionClose hmode =>
    simp only [Lexer.Agrees, hmode] at hm
    exact h.instructionClose hf hle hsize hm hmode
  | subsetOpen hmode =>
    rw [step_dtd]
    exact h.keep (stays_onDoctype _) rfl (by simp [Lexer.inDoctype, hmode]) (by rw [hmode]; rfl)
      (by rintro ⟨⟩) (by rintro ⟨⟩) rfl
  | subsetClose hy hsubset => exact h.subsetClose hf hy hsubset
  | doctypeClose hmode => exact h.doctypeClose hf hc hmode
  | doctypeParameter hmode hk =>
    rw [step_dtd]
    exact h.keepMode (stays_doctypeParameter _ hk) hmode rfl
  | declarationClose hmode =>
    simp only [Lexer.Agrees, hmode] at hm
    exact h.declarationClose hf hle hsize hm.1 hmode
  | declarationParameter hmode hk =>
    rw [step_dtd]
    exact h.keepMode (stays_declarationToken _ hk) hmode rfl

theorem Placed.of_falls (h : Placed x b) (hf : Falls x spaced y) : Placed y b := by
  cases hf with
  | startTag hmode | endTag hmode | instruction hmode => exact h.keepMode (.refl b) hmode rfl
  | backInTag hmode => exact h.keepTag (.refl b) hmode

/-! ## The whole text -/

theorem step_induction {P : Lexer → Builder → Prop}
    (hstep : ∀ {x y b pos spaced kind fault}, x.Consistent → Fits s x b → P x b →
      Reads x pos spaced kind y → x.pos < pos → pos ≤ size s →
      P y (step s b ⟨kind, x.pos, pos, fault⟩ y.inDtd))
    (hfalls : ∀ {x y b spaced}, P x b → Falls x spaced y → P y b)
    (hx : Text.isBoundary s x.pos = true) (hc : x.Consistent) (hf : Fits s x b) (hlt : x.pos < size s)
    (h : P x b) : P (x.step s).2 (Builder.step s b (x.step s).1 (x.step s).2.inDtd) := by
  have hmoves := Lexer.moves_lex hx hlt
  obtain ⟨z, spaced, hz, hreads⟩ := Lexer.lex_turns hc hlt
  have hstop := Text.le_size_of_isBoundary hmoves.ahead.2
  rw [Lexer.step_eq_lex hx hlt]
  rcases hz with rfl | hfall
  · exact hstep hc hf h hreads hmoves.ahead.1 hstop
  · have hpos := hfall.pos_eq
    rw [← hpos] at hmoves ⊢
    exact hstep (hc.of_falls hfall) (hf.of_falls (Nat.le_of_lt hlt) hfall) (hfalls h hfall) hreads
      hmoves.ahead.1 hstop

theorem tokens_induction {P : Lexer → Builder → Prop}
    (hstep : ∀ {x y b pos spaced kind fault}, x.Consistent → Fits s x b → P x b →
      Reads x pos spaced kind y → x.pos < pos → pos ≤ size s →
      P y (step s b ⟨kind, x.pos, pos, fault⟩ y.inDtd))
    (hfalls : ∀ {x y b spaced}, P x b → Falls x spaced y → P y b) (x : Lexer) (b : Builder)
    (hx : Text.isBoundary s x.pos = true) (hc : x.Consistent) (hf : Fits s x b) (h : P x b) :
    ∃ y, y.dtdFile = x.dtdFile ∧ y.Consistent ∧
      Fits s y ((x.tokens s).foldl (fun b (t, x) => Builder.step s b t x.inDtd) b) ∧
      P y ((x.tokens s).foldl (fun b (t, x) => Builder.step s b t x.inDtd) b) := by
  rcases Nat.lt_or_ge x.pos (size s) with hlt | hge
  · have hmoves := Lexer.moves_lex hx hlt
    have hnext : (x.step s).2.pos = (Lexer.lex s x).lexer.pos := by rw [Lexer.step_eq_lex hx hlt]
    have hahead : x.pos < (x.step s).2.pos := hnext ▸ hmoves.ahead.1
    have h' := step_induction hstep hfalls hx hc hf hlt h
    obtain ⟨hc', hfile, hf'⟩ := hf.next hx hlt hc
    obtain ⟨y, hy, hyc, hyf, hyp⟩ :=
      tokens_induction hstep hfalls (x.step s).2 _ (hnext ▸ hmoves.ahead.2) hc' hf' h'
    rw [tokens_of_lt hx hlt]
    exact ⟨y, hy.trans hfile, hyc, hyf, hyp⟩
  · rw [Lexer.tokens_at_end hge]
    exact ⟨x, rfl, hc, hf, h⟩
termination_by size s - x.pos
decreasing_by omega

theorem Fits.mode_of_endTagOpen {start : Nat} (h : Fits s x b) (hopen : b.endTagOpen = some start) :
    x.mode = .afterEndTagOpen ∨ x.mode = .inEndTag := by
  have hphase := h.phase
  cases hmode : x.mode with
  | afterEndTagOpen => exact .inl rfl
  | inEndTag => exact .inr rfl
  | content | dtdContent | doctype _ =>
    simp only [Phase, hmode] at hphase
    cases hopen.symm.trans hphase.endTagOpen
  | declaration _ =>
    simp only [Phase, hmode] at hphase
    cases hopen.symm.trans hphase.steady.endTagOpen
  | _ =>
    simp only [Phase, hmode] at hphase
    cases hopen.symm.trans hphase.1.endTagOpen

theorem Placed.finish (hc : x.Consistent) (hf : Fits s x b) (h : Placed x b) :
    Tidy x.dtdFile (b.finish s) := by
  have hflush : Tidy x.dtdFile (b.flushEndTag (size s) none).nodes := by
    cases hopen : b.endTagOpen with
    | none =>
      rw [flushEndTag_eq hopen]
      exact h.tidy
    | some start =>
      have hmode := hf.mode_of_endTagOpen hopen
      obtain ⟨hfile, hin, -⟩ := outside_of_agrees hc (.inr hmode)
      have hseated := h.seated_current (by rcases hmode with h | h <;> rw [h] <;> rfl)
      rw [hfile, hin] at hseated
      rw [hfile]
      exact (hseated.flushEndTag _ _).tidy
  rw [Builder.finish, foldl_extend]
  exact hflush.of_places (places_reach ..)

theorem tidy_emptyDocument (s : String) (file : Bool) : Tidy file (emptyDocument s) := by
  intro c inner around hc
  obtain ⟨n, hn, hpair⟩ := Option.map_eq_some_iff.mp hc
  obtain ⟨-, rfl⟩ := getElem?_emptyDocument s hn
  rw [Prod.mk.injEq] at hpair
  exact .inl ⟨hpair.1.symm, hpair.2.symm⟩

theorem placed_document (s : String) : Placed Lexer.document (start s false) := by
  have hseated : Seated false false (start s false) 0 :=
    ⟨tidy_emptyDocument s false, ⟨.document, none, rfl, rfl⟩, by rintro _ ⟨⟩⟩
  exact placed_of_seated hseated rfl rfl rfl rfl

theorem placed_declarations (s : String) : Placed Lexer.declarations (start s true) := by
  have hroot : places (emptyDocument s) 0 = some (.document, none) := rfl
  have hnew := places_append { nodes := emptyDocument s } (.doctype { synthetic := true }) ⟨0, size s⟩
  have hseated : Seated true false (start s true) 1 :=
    ⟨(tidy_emptyDocument s true).add hroot rfl hnew, ⟨.doctype, some 0, rfl, rfl⟩, by rintro ⟨⟩⟩
  exact placed_of_seated hseated rfl rfl rfl rfl

/-- **Every node of a text stands where it may.** -/
theorem build_tidy (s : String) (dtdFile : Bool) : Tidy dtdFile (build s dtdFile) := by
  cases dtdFile with
  | false =>
    obtain ⟨y, hfile, hc, hf, h⟩ := tokens_induction Placed.step Placed.of_falls
      Lexer.document (start s false) (Text.isBoundary_zero s)
      ⟨(by rintro ⟨⟩), (by rintro ⟨⟩), rfl, rfl⟩ (fits_document s) (placed_document s)
    have htidy := h.finish hc hf
    rw [hfile] at htidy
    exact htidy
  | true =>
    obtain ⟨y, hfile, hc, hf, h⟩ := tokens_induction Placed.step Placed.of_falls
      Lexer.declarations (start s true) (Text.isBoundary_zero s)
      ⟨fun _ => rfl, (by rintro ⟨⟩), rfl, rfl⟩ (fits_declarations s) (placed_declarations s)
    have htidy := h.finish hc hf
    rw [hfile] at htidy
    exact htidy

end Builder

/-! ## The document -/

namespace Node

def isLeaf (n : Node) : Bool :=
  match n.kind with
  | .text | .comment _ | .cdata _ | .instruction _ | .attribute _ | .declaration _ => true
  | _ => false

def goesInDoctype (n : Node) : Bool :=
  match n.kind with
  | .text | .comment _ | .instruction _ | .declaration _ => true
  | _ => false

def isOpenProlog (n : Node) : Bool :=
  match n.kind with
  | .instruction i => i.isProlog && !i.closed
  | _ => false

variable {n : Node}

theorem role_eq_prolog_iff : n.kind.role = .prolog ↔ n.isOpenProlog = true := by
  cases hk : n.kind <;> simp [isOpenProlog, Kind.role, hk]

theorem role_of_instruction (i : Instruction) :
    (Kind.instruction i).role = .prolog ∨ (Kind.instruction i).role = .instruction := by
  cases hp : i.isProlog && !i.closed <;> simp [Kind.role, hp]

theorem role_eq_element_iff : n.kind.role = .element ↔ n.isElement = true := by
  cases hk : n.kind with
  | instruction i =>
    rcases role_of_instruction i with hrole | hrole <;> simp [hrole, isElement, element?, hk]
  | _ => simp [isElement, element?, Kind.role, hk]

theorem role_eq_attribute_iff : n.kind.role = .attribute ↔ n.isAttribute = true := by
  cases hk : n.kind with
  | instruction i =>
    rcases role_of_instruction i with hrole | hrole <;> simp [hrole, isAttribute, attribute?, hk]
  | _ => simp [isAttribute, attribute?, Kind.role, hk]

theorem role_eq_doctype_iff : n.kind.role = .doctype ↔ n.isDoctype = true := by
  cases hk : n.kind with
  | instruction i =>
    rcases role_of_instruction i with hrole | hrole <;> simp [hrole, isDoctype, doctype?, hk]
  | _ => simp [isDoctype, doctype?, Kind.role, hk]

theorem role_of_isLeaf (h : n.isLeaf = true) (hopen : n.isOpenProlog = false) :
    n.kind.role ≠ .document ∧ n.kind.role ≠ .element ∧ n.kind.role ≠ .prolog ∧
      n.kind.role ≠ .doctype := by
  have hprolog : n.kind.role ≠ .prolog := fun hp => by
    rw [role_eq_prolog_iff, hopen] at hp
    cases hp
  cases hk : n.kind with
  | instruction i =>
    rw [hk] at hprolog
    rw [(role_of_instruction i).resolve_left hprolog]
    decide
  | _ => simp_all [isLeaf, Kind.role]

theorem goesInDoctype_of_holds {file : Bool} (h : Role.doctype.holds file n.kind.role = true) :
    n.goesInDoctype = true := by
  cases hk : n.kind with
  | instruction i => simp [goesInDoctype, hk]
  | _ => cases file <;> simp_all [goesInDoctype, Kind.role, Role.holds, Role.seats, Role.goesIn]

theorem isAttribute_of_isElement (h : n.isElement = true) : n.isAttribute = false := by
  cases hk : n.kind <;> simp_all [isElement, element?, isAttribute, attribute?]

theorem seats_cases (h : n.kind.role.seats false false = true) :
    n.isElement = true ∨ n.kind = .document ∨ n.isOpenProlog = true := by
  cases hk : n.kind with
  | instruction i =>
    rw [hk] at h
    rcases role_of_instruction i with hrole | hrole
    · exact .inr (.inr (role_eq_prolog_iff.mp (by rw [hk, hrole])))
    · rw [hrole] at h
      cases h
  | _ => simp_all [Kind.role, Role.seats, isElement, element?]

end Node

namespace Document

variable {d : Document} {id a : Nat} {n : Node} {hosts : Node → Bool}

/-- Leaves have no children, but for those of the kind `hosts`; document types have only declarations,
comments, instructions and text; and elements stand in elements and the document, so that the
document has a root wherever it has elements. -/
structure LeavesBut (hosts : Node → Bool) (d : Document) : Prop where
  leaf : ∀ id n, d.node? id = some n → n.isLeaf = true → hosts n = false → n.children = #[]
  doctype : ∀ id n, d.node? id = some n → n.isDoctype = true →
    ∀ c ∈ n.children, ∃ m, d.node? c = some m ∧ m.goesInDoctype = true
  ancestors : ∀ id n, d.node? id = some n → n.isElement = true → ∀ a ∈ d.ancestors id,
    ∃ m, d.node? a = some m ∧ (m.isElement = true ∨ m.kind = .document ∨ hosts m = true)
  root : (∃ id n, d.node? id = some n ∧ n.isElement = true) →
    d.root?.isSome = true ∨ ∃ id n, d.node? id = some n ∧ hosts n = true ∧ n.children ≠ #[]

section tidy
variable {file : Bool} (h : Tidy file d.nodes) (ha : Arena d.nodes)
include h ha

theorem holds_child {c : Nat} (hn : d.nodes[id]? = some n) (hc : c ∈ n.children) :
    ∃ m, d.nodes[c]? = some m ∧ m.isAttribute = false ∧ n.kind.role.holds file m.kind.role = true := by
  obtain ⟨m, hm, hp, hattr⟩ := (ha.child hn).mp hc
  refine ⟨m, hm, hattr, ?_⟩
  obtain ⟨-, hnone⟩ | ⟨p, outer, q, hp', hplace, hholds⟩ := h (places_of_getElem? hm)
  · rw [hp] at hnone
    cases hnone
  · obtain rfl := Option.some.inj (hp.symm.trans hp')
    rw [places_of_getElem? hn, Option.some.injEq, Prod.mk.injEq] at hplace
    rw [hplace.1]
    exact hholds

theorem children_of_isLeaf (hn : d.nodes[id]? = some n) (hleaf : n.isLeaf = true)
    (hopen : n.isOpenProlog = false) : n.children = #[] := by
  refine Array.eq_empty_iff_forall_not_mem.mpr fun c hc => ?_
  obtain ⟨m, -, hattr, hholds⟩ := holds_child h ha hn hc
  -- leaves that are no open XML declaration hold nothing but attributes
  have hrole : m.kind.role = .attribute :=
    Role.eq_attribute_of_holds hholds (role_of_isLeaf hleaf hopen)
  rw [role_eq_attribute_iff, hattr] at hrole
  cases hrole

theorem children_of_isDoctype {c : Nat} (hn : d.nodes[id]? = some n) (hdoctype : n.isDoctype = true)
    (hc : c ∈ n.children) : ∃ m, d.nodes[c]? = some m ∧ m.goesInDoctype = true := by
  obtain ⟨m, hm, -, hholds⟩ := holds_child h ha hn hc
  rw [role_eq_doctype_iff.mpr hdoctype] at hholds
  exact ⟨m, hm, goesInDoctype_of_holds hholds⟩

end tidy

theorem seats_of_mem_chain {nodes : Array Node} (h : Tidy false nodes) {role : Role} {q : Option Nat}
    (hid : places nodes id = some (role, q)) (hseats : role.seats false false = true)
    (hc : a ∈ chain nodes id) :
    ∃ role q, places nodes a = some (role, q) ∧ role.seats false false = true := by
  induction id using Nat.strongRecOn generalizing role q with
  | ind id ih =>
    rcases chain_cases nodes id with hone | ⟨p, hp, hlt, hcons⟩
    · rw [hone, List.mem_singleton] at hc
      exact ⟨role, q, hc ▸ hid, hseats⟩
    · rw [hcons, List.mem_cons] at hc
      rcases hc with rfl | hc
      · exact ⟨role, q, hid, hseats⟩
      · rw [parentAt_of_places hid] at hp
        subst hp
        obtain ⟨-, hnone⟩ | ⟨p', outer, q', hp', hplace, hholds⟩ := h hid
        · cases hnone
        · obtain rfl := Option.some.inj hp'
          refine ih p hlt hplace (Role.seats_of_holds hholds ?_) hc
          cases role <;> simp_all [Role.seats, Role.holds, Role.goesIn]

theorem file_eq_false {nodes : Array Node} {file : Bool} {q : Option Nat} (h : Tidy file nodes)
    (hid : places nodes id = some (.element, q)) : file = false := by
  obtain ⟨p, outer, q', -, -, hholds⟩ := (h hid).resolve_left (by rintro ⟨⟨⟩, -⟩)
  cases file with
  | false => rfl
  | true => simp [Role.holds, Role.goesIn] at hholds

theorem around_element {file : Bool} (h : Tidy file d.nodes) (hn : d.nodes[id]? = some n)
    (he : n.isElement = true) (hc : a ∈ chain d.nodes id) :
    ∃ m, d.nodes[a]? = some m ∧ (m.isElement = true ∨ m.kind = .document ∨ m.isOpenProlog = true) := by
  have hplace := places_of_getElem? hn
  rw [role_eq_element_iff.mpr he] at hplace
  obtain rfl := file_eq_false h hplace
  obtain ⟨role, q, ha, hseats⟩ := seats_of_mem_chain h hplace rfl hc
  obtain ⟨m, hm, hpair⟩ := Option.map_eq_some_iff.mp ha
  rw [Prod.mk.injEq] at hpair
  exact ⟨m, hm, seats_cases (hpair.1 ▸ hseats)⟩

theorem children_ne_empty {m : Node} (ha : Arena d.nodes) (hn : d.nodes[id]? = some n)
    (hattr : n.isAttribute = false) (hc : a ∈ chain d.nodes id) (hne : a ≠ id)
    (hm : d.nodes[a]? = some m) : m.children ≠ #[] := by
  obtain ⟨c, hchild, -⟩ := exists_child_of_mem_chain ha ⟨n, hn, hattr⟩ hc hne
  intro hnil
  have hmem := (ha.child hm).mpr hchild
  rw [hnil] at hmem
  simp at hmem

theorem leavesBut_of_tidy {file : Bool} (h : Tidy file d.nodes) (ha : Arena d.nodes) :
    d.LeavesBut Node.isOpenProlog where
  leaf id n hn hleaf hopen := children_of_isLeaf h ha hn hleaf hopen
  doctype id n hn hdoctype c hc := children_of_isDoctype h ha hn hdoctype hc
  ancestors id n hn he a hc := around_element h hn he (mem_ancestors.mp hc).1
  root := by
    rintro ⟨id, n, hn, he⟩
    obtain ⟨r, hr, hroot, -⟩ := ha.root
    have hattr := isAttribute_of_isElement he
    have hne : 0 ≠ id := by
      rintro rfl
      obtain rfl := Option.some.inj (hn.symm.trans hr)
      simp [isElement, Node.element?, hroot] at he
    -- the child of the document on the way to the element
    obtain ⟨c, hchild, hc⟩ := exists_child_of_mem_chain ha ⟨n, hn, hattr⟩
      (zero_mem_chain ha (lt_size_of_getElem? hn)) hne
    obtain ⟨m, hm, hcases⟩ := around_element h hn he hc
    rcases hcases with helement | hdocument | hopen
    · refine .inl ?_
      have hmem : c ∈ d.childElements 0 := by
        rw [childElements, List.mem_filter, mem_children ha (lt_size_of_getElem? hr), node_eq hm]
        exact ⟨hchild, helement⟩
      rw [root?, List.isSome_head?]
      exact fun hnil => by simp [hnil] at hmem
    · exact absurd hdocument (ha.inner hm (ha.child_lt hchild)).1
    · refine .inr ⟨c, m, hm, hopen, children_ne_empty ha hn hattr hc ?_ hm⟩
      rintro rfl
      obtain rfl := Option.some.inj (hn.symm.trans hm)
      rw [← role_eq_element_iff] at he
      rw [← role_eq_prolog_iff, he] at hopen
      cases hopen

theorem LeavesBut.without_iff (h : d.LeavesBut hosts) (ha : Arena d.nodes)
    (hleaf : ∀ n, hosts n = true → n.isLeaf = true) : d.LeavesBut (fun _ => false) ↔
      ∀ id n, d.node? id = some n → hosts n = true → n.children = #[] := by
  refine ⟨fun h' id n hn hhosts => h'.leaf id n hn (hleaf n hhosts) rfl, fun hnone => ?_⟩
  refine ⟨fun id n hn hl _ => ?_, h.doctype, fun id n hn he a hc => ?_, fun hex => ?_⟩
  · by_cases hhosts : hosts n = true
    · exact hnone id n hn hhosts
    · exact h.leaf id n hn hl (Bool.eq_false_iff.mpr hhosts)
  · obtain ⟨m, hm, hcases⟩ := h.ancestors id n hn he a hc
    refine ⟨m, hm, hcases.imp_right fun hor => .inl (hor.resolve_right fun hhosts => ?_)⟩
    obtain ⟨hmem, hlt⟩ := mem_ancestors.mp hc
    exact children_ne_empty ha hn (isAttribute_of_isElement he) hmem (Nat.ne_of_lt hlt) hm
      (hnone a m hm hhosts)
  · refine .inl ((h.root hex).resolve_right ?_)
    rintro ⟨id, n, hn, hhosts, hne⟩
    exact hne (hnone id n hn hhosts)

theorem leavesBut_parse (text uri : String) : (parse text uri).LeavesBut Node.isOpenProlog := by
  obtain ⟨⟨_, hn⟩, -⟩ := Builder.build_spec text (isDtdUri uri)
  exact leavesBut_of_tidy (d := parse text uri) (Builder.build_tidy text (isDtdUri uri)) hn.arena

/-- **Leaves have no children, but for an XML declaration without its `?>`**, whatever the text and the
address; and there is no exception where no such declaration has children. -/
theorem parse_leaves (text uri : String) :
    (parse text uri).LeavesBut Node.isOpenProlog ∧
      ((parse text uri).LeavesBut (fun _ => false) ↔
        ∀ id n, (parse text uri).node? id = some n → n.isOpenProlog = true → n.children = #[]) := by
  obtain ⟨⟨_, hn⟩, -⟩ := Builder.build_spec text (isDtdUri uri)
  have h := leavesBut_parse text uri
  refine ⟨h, h.without_iff hn.arena fun n hopen => ?_⟩
  cases hk : n.kind <;> simp_all [isOpenProlog, isLeaf]

/-- `<?xml` is left open here, and the element behind it stands inside. -/
theorem leaf_with_child : ¬ (parse "<?xml <a/>" "file:///t.xml").LeavesBut (fun _ => false) := by
  intro h
  have hprolog : ((parse "<?xml <a/>" "file:///t.xml").node? 1).map
      (fun n => (n.isLeaf, n.children)) = some (true, #[2]) := by
    decide +kernel
  obtain ⟨n, hn, hpair⟩ := Option.map_eq_some_iff.mp hprolog
  rw [Prod.mk.injEq] at hpair
  have hnil := h.leaf 1 n hn hpair.1 rfl
  rw [hpair.2] at hnil
  cases hnil

end Document

end XmlAssist
