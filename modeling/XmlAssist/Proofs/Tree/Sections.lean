import XmlAssist.Proofs.Tree.Change
import XmlAssist.Proofs.Tree.Leaves

/-!
# Sections that are still open

The section that the lexer is in is the current node, and no other comment, CDATA section or instruction
lacks its end (`Sections.lacks`); nor is a document type closed before its `>`. Both hold all along the
tokens of a text (`Follows.sections_behind`).
-/

namespace XmlAssist

open Node
open Text (size isBoundary)
open Lexer (Leads Reads Falls StartsContent StartsDeclaration)

namespace Builder

variable {s : String} {x y : Lexer} {l : List (Token × Lexer)} {b b' : Builder} {t : Token}
variable {pos i : Nat} {spaced inDtd : Bool} {kind : Token.Kind} {fault : Option Token.Fault} {k : Section}

/-! ## The open document type -/

theorem doctype_leaveDeclaration (b : Builder) : b.leaveDeclaration.doctype = b.doctype := by
  unfold leaveDeclaration
  split <;> rfl

theorem doctype_leaveClosedElement (b : Builder) : b.leaveClosedElement.doctype = b.doctype := by
  unfold leaveClosedElement
  split
  · split <;> rfl
  · rfl

theorem doctype_flushEndTag (b : Builder) (stop : Nat) (close : Option Nat) :
    (b.flushEndTag stop close).doctype = b.doctype := by
  unfold flushEndTag
  split <;> rfl

theorem doctype_beforeMarkup {start : Nat} (h : (b.beforeMarkup start inDtd).doctype = some i) :
    b.doctype = some i := by
  rw [beforeMarkup_eq, doctype_leaveClosedElement] at h
  split at h
  · unfold leaveDoctype at h
    dsimp only at h
    split at h
    · cases h
    · rwa [doctype_leaveDeclaration, doctype_settle] at h
  · rwa [doctype_settle] at h

theorem doctype_closeNearest (start : Nat) (t : Token) :
    (closeNearest s b start t).doctype = b.doctype := by
  unfold closeNearest
  split
  · unfold closeAt
    rw [foldl_extend]
    dsimp only
    split <;> rfl
  · rfl

theorem doctype_dtdToken {kind : Token.DtdKind} {t : Token} (hkind : kind ≠ .doctypeOpen)
    (h : (dtdToken s b kind t inDtd).doctype = some i) :
    b.doctype = some i ∧ kind ≠ .doctypeClose := by
  have hkeep {c : Builder} (hc : c.doctype = some i) (hstays : c.doctype = b.doctype) : b.doctype = some i :=
    hstays ▸ hc
  cases kind with
  | doctypeOpen => exact absurd rfl hkind
  | subsetOpen | doctypeName | doctypePublic | doctypeSystem | doctypePublicId | doctypeSystemId =>
    exact ⟨hkeep h (stays_onDoctype _).doctype, by rintro ⟨⟩⟩
  | subsetClose =>
    exact ⟨hkeep h ((stays_onDoctype _).doctype.trans (doctype_leaveDeclaration b)), by rintro ⟨⟩⟩
  | doctypeClose =>
    unfold dtdToken at h
    dsimp only at h
    split at h
    · cases h
    · rename_i hnone
      rw [hnone] at h
      cases h
  | elementOpen | attlistOpen | entityOpen | notationOpen =>
    exact ⟨hkeep h ((doctype_leaveClosedElement _).trans (doctype_leaveDeclaration b)), by rintro ⟨⟩⟩
  | declarationClose =>
    unfold dtdToken at h
    dsimp only at h
    split at h
    · rename_i id _
      refine ⟨hkeep h ?_, by rintro ⟨⟩⟩
      cases b.kindOf id <;> rfl
    · exact ⟨h, by rintro ⟨⟩⟩
  | unrecognized => exact ⟨hkeep h (stays_unrecognized b t).doctype, by rintro ⟨⟩⟩
  | _ => exact ⟨hkeep h (stays_declarationParameter b _ t).doctype, by rintro ⟨⟩⟩

theorem doctype_step (h : (step s b t inDtd).doctype = some i) :
    (b.doctype = some i ∧ t.kind ≠ .dtd .doctypeClose) ∨ (step s b t inDtd).kindOf i = .doctype {} := by
  obtain ⟨kind, start, stop, fault⟩ := t
  have hkeep {c : Builder} (hc : c.doctype = some i) (hsame : c.doctype = b.doctype) : b.doctype = some i :=
    hsame ▸ hc
  cases kind with
  | text | commentOpen | cdataOpen | instructionOpen | startTagOpen | endTagOpen =>
    exact .inl ⟨doctype_beforeMarkup h, by rintro ⟨⟩⟩
  | blank | eos => exact .inl ⟨h, by rintro ⟨⟩⟩
  | endTagName =>
    exact .inl ⟨hkeep h (doctype_closeNearest (b := { b with endTagOpen := none }) ..), by rintro ⟨⟩⟩
  | endTagClose =>
    refine .inl ⟨hkeep h ?_, by rintro ⟨⟩⟩
    simp only [step, tagToken]
    split
    · exact doctype_flushEndTag ..
    · cases b.kindOf b.current <;> first | rfl | (dsimp only; split <;> rfl)
  | attributeName =>
    refine .inl ⟨hkeep h ?_, by rintro ⟨⟩⟩
    rw [step_attributeName]
    unfold attributeName
    dsimp only
    split <;> rfl
  | assign => exact .inl ⟨hkeep h (stays_assign b _).doctype, by rintro ⟨⟩⟩
  | attributeValue => exact .inl ⟨hkeep h (stays_attributeValue b _).doctype, by rintro ⟨⟩⟩
  | dtd kind =>
    rw [step_dtd] at h ⊢
    by_cases hopen : kind = .doctypeOpen
    · subst hopen
      right
      obtain rfl := Option.some.inj h
      exact kindOf_openNode ..
    · obtain ⟨hi, hclose⟩ := doctype_dtdToken hopen h
      exact .inl ⟨hi, fun hk => hclose (Token.Kind.dtd.inj hk)⟩
  | unknown =>
    refine .inl ⟨hkeep h ?_, by rintro ⟨⟩⟩
    cases hk : b.kindOf b.current <;> simp only [step, tagToken, hk]
    split <;> rfl
  | _ =>
    refine .inl ⟨hkeep h ?_, by rintro ⟨⟩⟩
    cases hk : b.kindOf b.current <;> simp only [step, tagToken, sectionToken, hk] <;> rfl

/-! ## What a section is made of -/

theorem eq_of_comment {n : Kind} (h : n.openSection? = some .comment) :
    ∃ c, n = .comment c ∧ c.closed = false := by
  cases n with
  | comment c => cases hc : c.closed <;> simp_all [Kind.openSection?]
  | _ => simp [Kind.openSection?] at h

theorem eq_of_cdata {n : Kind} (h : n.openSection? = some .cdata) :
    ∃ c, n = .cdata c ∧ c.closed = false := by
  cases n with
  | cdata c => cases hc : c.closed <;> simp_all [Kind.openSection?]
  | _ => simp [Kind.openSection?] at h

theorem eq_of_instruction {n : Kind} (h : n.openSection? = some .instruction) :
    ∃ p, n = .instruction p ∧ p.isProlog = false ∧ p.closed = false := by
  cases n with
  | instruction p => cases hp : p.isProlog <;> cases hc : p.closed <;> simp_all [Kind.openSection?]
  | _ => simp [Kind.openSection?] at h

theorem kindOf_update_eq (hid : i < b.nodes.size) (k : Kind) (stop j : Nat) :
    (b.update i k stop).kindOf j = if j = i then k else b.kindOf j := by
  split
  · rename_i h
    subst h
    have hn := Array.getElem?_eq_getElem hid
    exact kindOf_eq (n := { b.nodes[j] with kind := k, span := b.nodes[j].span.extendTo stop })
      (by simp only [update, modify, Array.getElem?_modify, if_pos, hn, Option.map_some])
  · rename_i h
    exact kindOf_modify_of_ne (Ne.symm h)

/-! ## Inside a section -/

/-- The section that the lexer is in is the current node, and no other lacks its end; no document type
that is being read has its end. -/
structure Sections (x : Lexer) (b : Builder) : Prop where
  lacks : ∀ id, (b.kindOf id).openSection? = if id = b.current then x.mode.section? else none
  doctype : ∀ i, b.doctype = some i → ∃ d, b.kindOf i = .doctype d ∧ d.closed = false

theorem section?_of_falls (h : Falls x spaced y) : y.mode.section? = x.mode.section? := by
  cases h with
  | backInTag hx =>
    rw [Lexer.moved_mode, Lexer.section?_tagMode]
    rcases hx with hx | hx <;> rw [hx] <;> rfl
  | startTag hx | endTag hx | instruction hx => rw [hx]; rfl

theorem Sections.of_falls (h : Sections x b) (hf : Falls x spaced y) : Sections y b :=
  ⟨fun id => section?_of_falls hf ▸ h.lacks id, h.doctype⟩

theorem Sections.shut (h : Sections x b) (hx : x.mode.section? = none) (id : Nat) :
    (b.kindOf id).openSection? = none := by
  rw [h.lacks, hx, ite_self]

theorem Sections.step_outside (h : Sections x b) (hx : x.mode.section? = none) (hy : y.mode.section? = none)
    (ht : t.kind.opensSection = false) (id : Nat) : ((step s b t inDtd).kindOf id).openSection? =
      if id = (step s b t inDtd).current then y.mode.section? else none := by
  rw [hy, ite_self]
  rcases (changes_step s b t inDtd).openSection? ht id with hsame | hnone
  · rw [hsame, h.shut hx]
  · exact hnone

theorem Sections.step_open {n : Kind} {i j : Nat} (h : Sections x b) (hx : x.mode.section? = none)
    (hstep : step s b t inDtd = (b.beforeMarkup i inDtd).openNode n ⟨i, j⟩)
    (hn : n.openSection? = y.mode.section?) (id : Nat) : ((step s b t inDtd).kindOf id).openSection? =
      if id = (step s b t inDtd).current then y.mode.section? else none := by
  have hbefore := retains_beforeMarkup b i inDtd
  rw [hstep, kindOf_openNode_eq, openNode_current]
  split
  · exact hn
  · by_cases hid : id < b.nodes.size
    · rw [hbefore.old id hid, h.shut hx]
    · have hplain := hbefore.new id (Nat.le_of_not_lt hid)
      cases hk : (b.beforeMarkup i inDtd).kindOf id <;> simp_all [Kind.Plain, Kind.openSection?]

theorem Sections.current (h : Sections x b) (hx : x.mode.section? = some k) :
    (b.kindOf b.current).openSection? = some k := by rw [h.lacks, if_pos rfl, hx]

theorem Sections.current_lt (h : Sections x b) (hx : x.mode.section? = some k) :
    b.current < b.nodes.size := by
  refine Nat.lt_of_not_le fun hge => ?_
  have hopen := h.current hx
  rw [kindOf_of_ge hge] at hopen
  cases hopen

section inside
variable {n : Kind} {j : Nat} (h : Sections x b) (hx : x.mode.section? = some k)
variable (hnodes : b'.nodes = (b.update b.current n j).nodes)
include h hx hnodes

theorem Sections.openSection?_inside (id : Nat) :
    (b'.kindOf id).openSection? = if id = b.current then n.openSection? else none := by
  have hkind : b'.kindOf id = (b.update b.current n j).kindOf id := by rw [kindOf, kindOf, hnodes]
  rw [hkind, kindOf_update_eq (h.current_lt hx)]
  split
  · rfl
  · rename_i hid
    rw [h.lacks, if_neg hid]

theorem Sections.step_keep (hcurrent : b'.current = b.current) (hn : n.openSection? = y.mode.section?)
    (id : Nat) : (b'.kindOf id).openSection? = if id = b'.current then y.mode.section? else none := by
  rw [h.openSection?_inside hx hnodes, hcurrent, hn]

theorem Sections.step_close (hn : n.openSection? = none) (hy : y.mode.section? = none) (id : Nat) :
    (b'.kindOf id).openSection? = if id = b'.current then y.mode.section? else none := by
  rw [h.openSection?_inside hx hnodes, hn, hy, ite_self, ite_self]

end inside

theorem section?_of_yields (h : x.YieldsToContent ∨ x.YieldsToDeclaration) : x.mode.section? = none := by
  rcases h with h | h
  · cases hm : x.mode <;> simp [Lexer.YieldsToContent, hm] at h <;> rfl
  · cases hm : x.mode <;> simp [Lexer.YieldsToDeclaration, hm] at h <;> rfl

theorem section?_starts {mode : Lexer.Mode} (h : StartsContent kind mode ∨ StartsDeclaration kind mode) :
    (kind.opensSection = false ∧ mode.section? = none) ∨ (kind = .commentOpen ∧ mode = .inComment) ∨
      (kind = .cdataOpen ∧ mode = .inCData) ∨
        (kind = .instructionOpen ∧ mode = .afterInstructionOpen) := by
  simp only [StartsContent, StartsDeclaration, Lexer.contentOpeners, Lexer.dtdOpeners, List.map_cons,
    List.map_nil, List.mem_cons, Prod.mk.injEq, List.not_mem_nil, or_false] at h
  rcases h with
    (⟨rfl, rfl⟩ | ⟨rfl, rfl⟩ | ⟨rfl, rfl⟩ | ⟨rfl, rfl⟩ | ⟨rfl, rfl⟩ | ⟨rfl, rfl⟩ |
      ⟨rfl, rfl⟩) |
    (⟨rfl, rfl⟩ | ⟨rfl, rfl⟩ | ⟨rfl, rfl⟩ | ⟨rfl, rfl⟩ | ⟨rfl, rfl⟩ | ⟨rfl, rfl⟩ |
      ⟨rfl, rfl⟩) <;>
    simp [Token.Kind.opensSection, Lexer.Mode.section?]

theorem Sections.step_starts {mode : Lexer.Mode} (h : Sections x b)
    (hy : x.YieldsToContent ∨ x.YieldsToDeclaration)
    (hk : StartsContent kind mode ∨ StartsDeclaration kind mode) (hmode : y.mode = mode) (id : Nat) :
    ((step s b ⟨kind, x.pos, pos, fault⟩ inDtd).kindOf id).openSection? =
      if id = (step s b ⟨kind, x.pos, pos, fault⟩ inDtd).current then y.mode.section? else none := by
  have hx := section?_of_yields hy
  subst hmode
  rcases section?_starts hk with ⟨ht, hm⟩ | ⟨rfl, hm⟩ | ⟨rfl, hm⟩ | ⟨rfl, hm⟩
  · exact h.step_outside hx hm ht id
  · exact h.step_open hx step_commentOpen (by rw [hm]; rfl) id
  · exact h.step_open hx step_cdataOpen (by rw [hm]; rfl) id
  · exact h.step_open hx step_instructionOpen (by rw [hm]; rfl) id

theorem Sections.step (h : Sections x b) (hr : Reads x pos spaced kind y) :
    Sections y (step s b ⟨kind, x.pos, pos, fault⟩ y.inDtd) := by
  refine ⟨fun id => ?_, fun i hi => ?_⟩
  · have houtside (hx : x.mode.section? = none) (hy : y.mode.section? = none)
        (ht : kind.opensSection = false) :
        ((Builder.step s b ⟨kind, x.pos, pos, fault⟩ y.inDtd).kindOf id).openSection? =
          if id = (Builder.step s b ⟨kind, x.pos, pos, fault⟩ y.inDtd).current then y.mode.section?
          else none := h.step_outside hx hy ht id
    cases hr with
    | blank => exact h.lacks id
    | content hy hk => exact h.step_starts (.inl hy) (.inl hk) rfl id
    | declaration hy hk => exact h.step_starts (.inr hy) (.inr hk) rfl id
    | startTagName hx | startTagClose hx | startTagSelfClose hx | endTagName hx | endTagClose hx
    | assign hx | subsetOpen hx | doctypeClose hx | declarationClose hx =>
      exact houtside (by rw [hx]; rfl) rfl rfl
    | doctypeParameter hx | declarationParameter hx => exact houtside (by rw [hx]; rfl) rfl rfl
    | prologClose hx =>
      exact houtside (by rw [hx]; rfl) (Lexer.section?_contentMode x) rfl
    | subsetClose hy => exact houtside (section?_of_yields (.inr hy)) rfl rfl
    | unknown hx =>
      have hsection : x.mode.section? = none := by rcases hx with hx | hx | hx <;> rw [hx] <;> rfl
      exact houtside hsection hsection rfl
    | attributeName hx => exact houtside (by rcases hx with hx | hx <;> rw [hx] <;> rfl) rfl rfl
    | attributeValue hx => exact houtside (by rw [hx]; rfl) (Lexer.section?_tagMode x) rfl
    | commentText hx =>
      have hin : x.mode.section? = some .comment := by rw [hx]; rfl
      obtain ⟨c, hc, hopen⟩ := eq_of_comment (h.current hin)
      rw [step_text_of_comment hc (.inl rfl)]
      exact h.step_keep hin (by rfl) (by rfl) (by simp [Kind.openSection?, hopen, Lexer.Mode.section?]) id
    | commentClose hx =>
      have hin : x.mode.section? = some .comment := by rw [hx]; rfl
      obtain ⟨c, hc, -⟩ := eq_of_comment (h.current hin)
      rw [step_close_of_comment hc (.inl rfl)]
      exact h.step_close hin (by rfl) (by rfl) (by exact Lexer.section?_contentMode x) id
    | cdataText hx =>
      have hin : x.mode.section? = some .cdata := by rw [hx]; rfl
      obtain ⟨c, hc, hopen⟩ := eq_of_cdata (h.current hin)
      rw [step_text_of_cdata hc (.inr rfl)]
      exact h.step_keep hin (by rfl) (by rfl) (by simp [Kind.openSection?, hopen, Lexer.Mode.section?]) id
    | cdataClose hx =>
      have hin : x.mode.section? = some .cdata := by rw [hx]; rfl
      obtain ⟨c, hc, -⟩ := eq_of_cdata (h.current hin)
      rw [step_close_of_cdata hc (.inr rfl)]
      exact h.step_close hin (by rfl) (by rfl) (by exact Lexer.section?_contentMode x) id
    | prologName hx =>
      have hin : x.mode.section? = some .instruction := by rw [hx]; rfl
      obtain ⟨p, hp, -, -⟩ := eq_of_instruction (h.current hin)
      rw [step_prologName hp]
      exact h.step_close hin (by rfl) (by rfl) (by rfl) id
    | instructionTarget hx =>
      have hin : x.mode.section? = some .instruction := by rw [hx]; rfl
      obtain ⟨p, hp, -, hopen⟩ := eq_of_instruction (h.current hin)
      rw [step_instructionTarget hp]
      exact h.step_keep hin (by rfl) (by rfl) (by simp [Kind.openSection?, hopen, Lexer.Mode.section?]) id
    | instructionContent hx =>
      have hin : x.mode.section? = some .instruction := by rw [hx]; rfl
      obtain ⟨p, hp, hprolog, hopen⟩ := eq_of_instruction (h.current hin)
      rw [step_instructionContent hp]
      exact h.step_keep hin (by rfl) (by rfl)
        (by simp [Kind.openSection?, hprolog, hopen, Lexer.Mode.section?]) id
    | instructionClose hx =>
      have hin : x.mode.section? = some .instruction := by rw [hx]; rfl
      obtain ⟨p, hp, -, -⟩ := eq_of_instruction (h.current hin)
      rw [step_close_of_instruction hp (.inl rfl)]
      exact h.step_close hin (by rfl) (by simp [Kind.openSection?])
        (by exact Lexer.section?_contentMode x) id
  · rcases doctype_step hi with ⟨hold, hkind⟩ | hnew
    · obtain ⟨d, hd, hopen⟩ := h.doctype i hold
      obtain ⟨d', hd', hsame⟩ := (changes_step s b ⟨kind, x.pos, pos, fault⟩ y.inDtd).doctype hd hkind
      exact ⟨d', hd', hsame.trans hopen⟩
    · exact ⟨{}, hnew, rfl⟩

/-! ## Along the tokens -/

/-- **Only the section that the lexer is in lacks its end**, all along the tokens of a text. -/
theorem Follows.sections_behind (h : Follows s x b) (hs : Sections x b) (hl : Leads s x l y) :
    Sections y (Builder.behind s l b) := by
  induction hl generalizing b with
  | here => exact hs
  | next hlt _ ih =>
    exact ih (h.next hlt).2 (step_induction (fun _ _ h hr _ _ => h.step hr) Sections.of_falls h.boundary
      h.consistent h.fits hlt hs)

theorem sections_start (s : String) (dtdFile : Bool) :
    Sections (if dtdFile then Lexer.declarations else Lexer.document) (start s dtdFile) := by
  cases dtdFile with
  | false => exact ⟨fun id => by rcases id with _ | id <;> rfl, nofun⟩
  | true =>
    refine ⟨fun id => by rcases id with _ | _ | id <;> rfl, fun i hi => ?_⟩
    obtain rfl := Option.some.inj hi
    exact ⟨_, rfl, rfl⟩

end Builder

end XmlAssist
