import XmlAssist.Proofs.Tree.Tags

/-!
# Documents of tags and text

A node stays of one sort. So in a document that has nothing but elements, attributes and text at the end, nothing
else was ever read: the lexer was in content or in a tag all along (`Document.HasOnlyTags.behind`).
-/

namespace XmlAssist

open Node
open Text (size)
open Lexer (Leads Reads Falls StartsContent)

/-- The node is an element, an attribute, text or the document around them. -/
def Node.Kind.isTagged : Kind → Bool
  | .document | .element _ | .attribute _ | .text => true
  | _ => false

/-- There is nothing but elements, attributes and text in the document. -/
def Document.HasOnlyTags (d : Document) : Prop := ∀ n ∈ d.nodes, n.kind.isTagged = true

instance (d : Document) : Decidable d.HasOnlyTags := inferInstanceAs (Decidable (∀ n ∈ d.nodes, _))

/-- The node is neither a section nor a document type. -/
def Node.Kind.isOpen : Kind → Bool
  | .comment _ | .cdata _ | .instruction _ | .doctype _ => false
  | _ => true

/-- The lexer is in content or in a tag, outside of declarations and of `<?xml`. -/
structure Lexer.InTags (x : Lexer) : Prop where
  inProlog : x.inProlog = false
  inDtd : x.inDtd = false
  mode : match x.mode with
    | .content | .afterStartTagOpen | .inTag | .afterAttributeName | .beforeAttributeValue | .afterEndTagOpen
    | .inEndTag => True
    | _ => False

/-- What can be read in content and in tags, and the mode behind it. -/
inductive Lexer.ReadsInTags (x : Lexer) : Token.Kind → Lexer.Mode → Prop where
  | blank : ReadsInTags x .blank x.mode
  | text (mode : x.mode = .content ∨ x.mode = .inTag ∨ x.mode = .inEndTag) : ReadsInTags x .text .content
  | startTagOpen (mode : x.mode = .content ∨ x.mode = .inTag ∨ x.mode = .inEndTag) :
      ReadsInTags x .startTagOpen .afterStartTagOpen
  | endTagOpen (mode : x.mode = .content ∨ x.mode = .inTag ∨ x.mode = .inEndTag) :
      ReadsInTags x .endTagOpen .afterEndTagOpen
  | startTagName (mode : x.mode = .afterStartTagOpen) : ReadsInTags x .startTagName .inTag
  | startTagClose (mode : x.mode = .inTag) : ReadsInTags x .startTagClose .content
  | startTagSelfClose (mode : x.mode = .inTag) : ReadsInTags x .startTagSelfClose .content
  | endTagName (mode : x.mode = .afterEndTagOpen) : ReadsInTags x .endTagName .inEndTag
  | endTagClose (mode : x.mode = .inEndTag) : ReadsInTags x .endTagClose .content
  | unknown (mode : x.mode = .inTag ∨ x.mode = .inEndTag) : ReadsInTags x .unknown x.mode
  | attributeName (mode : x.mode = .inTag) : ReadsInTags x .attributeName .afterAttributeName
  | assign (mode : x.mode = .afterAttributeName) : ReadsInTags x .assign .beforeAttributeValue
  | attributeValue (mode : x.mode = .beforeAttributeValue) : ReadsInTags x .attributeValue .inTag

namespace Builder

variable {s : String} {x y : Lexer} {l : List (Token × Lexer)} {b b' : Builder} {t : Token} {id : Nat} {k k' : Kind}

theorem isOpen_of_changes (h : k.Changes s b t id k') : k'.isOpen = k.isOpen := by
  cases h with
  | inner hk hk' hsame => cases k <;> cases k' <;> simp_all [Kind.isOther, Kind.isOpen, Kind.section?]
  | _ => rfl

/-- All nodes have been neither sections nor document types. -/
def HasOnlyOpen (b : Builder) : Prop := ∀ id, (b.kindOf id).isOpen = true

theorem HasOnlyOpen.of_step {inDtd : Bool} (h : (step s b t inDtd).HasOnlyOpen) : b.HasOnlyOpen := by
  intro id
  rcases Nat.lt_or_ge id b.nodes.size with hlt | hge
  · exact (isOpen_of_changes ((changes_step s b t inDtd).old id hlt)).symm.trans (h id)
  · rw [kindOf_of_ge hge]
    rfl

theorem HasOnlyOpen.of_behind (h : (behind s l b).HasOnlyOpen) : b.HasOnlyOpen := by
  induction l generalizing b with
  | nil => exact h
  | cons p l ih => exact (ih h).of_step

theorem HasOnlyOpen.of_retains (hretains : Retains b b') (h : b'.HasOnlyOpen) : b.HasOnlyOpen := by
  intro id
  rcases Nat.lt_or_ge id b.nodes.size with hlt | hge
  · exact hretains.old id hlt ▸ h id
  · rw [kindOf_of_ge hge]
    rfl

theorem hasOnlyOpen_of_nodes {d : Document} (h : d.HasOnlyTags) (hnodes : b.nodes = d.nodes) : b.HasOnlyOpen := by
  intro id
  cases hn : b.nodes[id]? with
  | none =>
    rw [kindOf_of_ge (Array.getElem?_eq_none_iff.mp hn)]
    rfl
  | some n =>
    have htagged := h n (hnodes ▸ Array.mem_of_getElem? hn)
    rw [kindOf_eq hn]
    cases hk : n.kind <;> rw [hk] at htagged <;> first | rfl | cases htagged

theorem not_hasOnlyOpen_openNode {span : Span} (hk : k.isOpen = false) : ¬ (b.openNode k span).HasOnlyOpen := by
  intro h
  have hnew := h b.nodes.size
  rw [kindOf_openNode_eq, if_pos rfl, hk] at hnew
  cases hnew

section reads

variable {pos : Nat} {spaced inDtd : Bool} {kind : Token.Kind} {fault : Option Token.Fault} {mode : Lexer.Mode}
variable (h : (step s b ⟨kind, x.pos, pos, fault⟩ inDtd).HasOnlyOpen)
include h

theorem kind_of_startsContent (hstarts : StartsContent kind mode) : (kind = .text ∧ mode = .content) ∨
    (kind = .startTagOpen ∧ mode = .afterStartTagOpen) ∨ (kind = .endTagOpen ∧ mode = .afterEndTagOpen) := by
  simp only [StartsContent, Lexer.contentOpeners, List.map_cons, List.map_nil, List.mem_cons, Prod.mk.injEq,
    List.not_mem_nil, or_false] at hstarts
  rcases hstarts with hk | hk | hk | hk | hk | hk | hk
  · exact .inl hk
  · obtain ⟨rfl, -⟩ := hk
    exact absurd (step_commentOpen ▸ h) (not_hasOnlyOpen_openNode rfl)
  · obtain ⟨rfl, -⟩ := hk
    exact absurd (step_cdataOpen ▸ h) (not_hasOnlyOpen_openNode rfl)
  · obtain ⟨rfl, -⟩ := hk
    exact absurd (step_doctypeOpen ▸ h : HasOnlyOpen { openNode _ _ _ with doctype := _ })
      (not_hasOnlyOpen_openNode (b := b.beforeMarkup x.pos inDtd) (k := .doctype {}) rfl)
  · exact .inr (.inr hk)
  · obtain ⟨rfl, -⟩ := hk
    exact absurd (step_instructionOpen ▸ h) (not_hasOnlyOpen_openNode rfl)
  · exact .inr (.inl hk)

theorem inTags_of_reads (hx : x.InTags) (hr : Reads x pos spaced kind y) :
    y.InTags ∧ x.ReadsInTags kind y.mode := by
  obtain ⟨hprolog, hinDtd, hmode⟩ := hx
  have hsubset : x.dtdFile = false ∧ x.inSubset = false := by simpa [Lexer.inDtd] using hinDtd
  cases hr with
  | blank => exact ⟨⟨hprolog, hinDtd, hmode⟩, .blank⟩
  | content hyields hstarts =>
    have hin : x.mode = .content ∨ x.mode = .inTag ∨ x.mode = .inEndTag := by
      cases hm : x.mode <;> simp [hm, Lexer.YieldsToContent] at hmode hyields ⊢
    have hdtd : Lexer.inDtd { x with inProlog := false, inSubset := false } = false := by
      simp [Lexer.inDtd, hsubset.1]
    obtain hkind := kind_of_startsContent h hstarts
    rcases hkind with ⟨rfl, rfl⟩ | ⟨rfl, rfl⟩ | ⟨rfl, rfl⟩
    · exact ⟨⟨rfl, hdtd, trivial⟩, .text hin⟩
    · exact ⟨⟨rfl, hdtd, trivial⟩, .startTagOpen hin⟩
    · exact ⟨⟨rfl, hdtd, trivial⟩, .endTagOpen hin⟩
  | declaration hyields =>
    cases hm : x.mode <;> simp [hm, Lexer.YieldsToDeclaration] at hmode hyields
  | startTagName hm => exact ⟨⟨hprolog, hinDtd, trivial⟩, .startTagName hm⟩
  | startTagClose hm => exact ⟨⟨hprolog, hinDtd, trivial⟩, .startTagClose hm⟩
  | startTagSelfClose hm => exact ⟨⟨hprolog, hinDtd, trivial⟩, .startTagSelfClose hm⟩
  | endTagName hm => exact ⟨⟨hprolog, hinDtd, trivial⟩, .endTagName hm⟩
  | endTagClose hm => exact ⟨⟨hprolog, hinDtd, trivial⟩, .endTagClose hm⟩
  | unknown hm =>
    refine ⟨⟨hprolog, hinDtd, hmode⟩, .unknown ?_⟩
    rcases hm with hm | hm | hm
    · exact .inl hm
    · simp [hm] at hmode
    · exact .inr hm
  | attributeName hm =>
    refine ⟨⟨hprolog, hinDtd, trivial⟩, .attributeName (hm.resolve_right fun hm => ?_)⟩
    simp [hm] at hmode
  | assign hm => exact ⟨⟨hprolog, hinDtd, trivial⟩, .assign hm⟩
  | attributeValue hm =>
    have htag : x.tagMode = .inTag := by simp [Lexer.tagMode, hprolog]
    rw [htag]
    exact ⟨⟨hprolog, hinDtd, trivial⟩, .attributeValue hm⟩
  | subsetClose hyields => cases hm : x.mode <;> simp [hm, Lexer.YieldsToDeclaration] at hmode hyields
  | commentText hm | commentClose hm | cdataText hm | cdataClose hm | prologName hm | prologClose hm
  | instructionTarget hm | instructionContent hm | instructionClose hm | subsetOpen hm | doctypeClose hm
  | doctypeParameter hm | declarationClose hm | declarationParameter hm => simp [hm] at hmode

end reads

theorem inTags_of_falls {spaced : Bool} (hx : x.InTags) (hf : Falls x spaced y) : y.InTags := by
  obtain ⟨hprolog, hinDtd, hmode⟩ := hx
  cases hf with
  | startTag | endTag => exact ⟨hprolog, hinDtd, trivial⟩
  | backInTag =>
    rw [show x.tagMode = .inTag by simp [Lexer.tagMode, hprolog]]
    exact ⟨hprolog, hinDtd, trivial⟩
  | instruction hm => simp [hm] at hmode

theorem exists_readsInTags (hx : x.InTags) (hf : Follows s x b) (hlt : x.pos < size s)
    (h : (step s b (x.step s).1 (x.step s).2.inDtd).HasOnlyOpen) : (x.step s).2.InTags ∧
      ∃ z, (z = x ∨ ∃ spaced, Falls x spaced z) ∧ z.ReadsInTags (x.step s).1.kind (x.step s).2.mode := by
  obtain ⟨z, spaced, hz, hreads⟩ := Lexer.lex_turns hf.consistent hlt
  rw [Lexer.step_eq_lex hf.boundary hlt] at h ⊢
  have hin : z.InTags := by
    rcases hz with rfl | hfall
    · exact hx
    · exact inTags_of_falls hx hfall
  have hpos : z.pos = x.pos := by
    rcases hz with rfl | hfall
    · rfl
    · exact hfall.pos_eq
  rw [← hpos] at h
  obtain ⟨hy, hkind⟩ := inTags_of_reads h hin hreads
  exact ⟨hy, z, hz.imp_right fun hfall => ⟨_, hfall⟩, hkind⟩

theorem Follows.inTags_behind (hf : Follows s x b) (hl : Leads s x l y) (hx : x.InTags)
    (h : (Builder.behind s l b).HasOnlyOpen) : y.InTags := by
  induction hl generalizing b with
  | here => exact hx
  | next hlt _ ih =>
    rw [behind_cons] at h
    exact ih (hf.next hlt).2 (exists_readsInTags hx hf hlt h.of_behind).1 h

end Builder

namespace Document

variable {text uri : String} {l : List (Token × Lexer)} {y : Lexer} (h : (parse text uri).HasOnlyTags)
include h

theorem HasOnlyTags.isDtdUri_eq : isDtdUri uri = false := by
  have hf := Builder.follows_start text (isDtdUri uri)
  obtain ⟨y, hl, hpos⟩ := Leads.exists_end text _ hf.boundary
  have hnodes : (Builder.atEnd text (Builder.run text _ (Builder.start text (isDtdUri uri)))).nodes =
      (parse text uri).nodes := (Builder.build_eq ..).symm
  rw [Builder.run_eq_behind hl hf.boundary hpos] at hnodes
  have hopen := ((Builder.hasOnlyOpen_of_nodes h hnodes).of_retains (Builder.retains_atEnd ..)).of_behind 1
  cases huri : isDtdUri uri with
  | false => rfl
  | true =>
    rw [huri] at hopen
    cases hopen

/-- Whatever has been read, the nodes so far are neither sections nor document types, and the lexer is in content or
in a tag. -/
theorem HasOnlyTags.behind (hl : Leads text .document l y) :
    (Builder.behind text l (Builder.start text false)).HasOnlyOpen ∧ y.InTags := by
  have hend := Builder.hasOnlyOpen_of_nodes h (Builder.parse_nodes h.isDtdUri_eq hl).symm
  have hopen := (hend.of_retains (Builder.retains_atEnd ..)).of_behind
  exact ⟨hopen, (Builder.follows_start text false).inTags_behind hl ⟨rfl, rfl, trivial⟩ hopen⟩

end Document

end XmlAssist
