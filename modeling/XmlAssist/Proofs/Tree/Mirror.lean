import XmlAssist.Proofs.Tree.Outline

/-!
# Tokens in two texts

A token of one text and a token of the same kind of another text keep the outlines of the builders
alike (`Mirrors.step`), if the same is written at them, or if what is written there fits the change
between the outlines (`Retouch.Suits`). So do all tokens up to the end of the texts.
-/

namespace XmlAssist

open Node
open Text (size)

/-- What is written at a token of the one text, `w`, and of the other, `w'`, is no other difference than
the given one. -/
structure Retouch.Suits (f : Retouch) (b b' : Builder) (kind : Token.Kind) (w w' : String) : Prop where
  fresh : ∀ id, f.onTag id none = none
  startTag : kind = .startTagName → f.onTag b.current (some w) = some w'
  endTag : kind = .endTagName →
    ((chain b.nodes b.current).find? (b.isOpenAs w) = none → f.onTag b.nodes.size (some w) = some w') ∧
    (chain b.nodes b.current).find? (b'.isOpenAs w') = (chain b.nodes b.current).find? (b.isOpenAs w)
  target : kind = .prologName ∨ kind = .instructionTarget → w' = w
  name : kind = .attributeName →
    f.onAttribute b.nodes.size { name := w, nameSpan := {} } = { name := w', nameSpan := {} }
  assign : kind = .assign → ∀ id ∈ b.openAttribute, ∀ a,
    f.onAttribute id { a with hasDelimiter := true } = { f.onAttribute id a with hasDelimiter := true }
  value : kind = .attributeValue → ∀ id ∈ b.openAttribute, ∀ a,
    f.onAttribute id (a.withValue w {}) = (f.onAttribute id a).withValue w' {}

namespace Builder

variable {f : Retouch} {b b' c c' : Builder} {id : Nat} {k k' : Kind} {span span' : Span}
variable {s s' : String} {i j i' j' : Nat} {fault fault' : Option Token.Fault} {inDtd : Bool}

theorem retouch_default (id : Nat) (n : Node) : Retouch.node {} id n = n := by
  obtain ⟨span, parent, children, kind⟩ := n
  cases kind <;> rfl

namespace Mirrors

theorem refl (b : Builder) : Mirrors {} b b := by
  refine ⟨fun id => ?_, rfl, rfl, rfl, rfl⟩
  simp only [retouch_default]

theorem same (h : Mirrors f b b') (hc : Mirrors {} b c) (hc' : Mirrors {} b' c') : Mirrors f c c' := by
  have hnode {b c : Builder} (h : Mirrors {} b c) (id : Nat) :
      c.nodes[id]?.map Node.outline = b.nodes[id]?.map Node.outline := by
    rw [h.node id]
    simp only [retouch_default]
  refine ⟨fun id => ?_, ?_, ?_, ?_, ?_⟩
  · have hcomp (o : Option Node) : (o.map fun n => f.node id n.outline) =
        (o.map Node.outline).map (f.node id) := by rw [Option.map_map]; rfl
    rw [hnode hc', h.node id, hcomp, hcomp, hnode hc]
  · rw [hc'.current, h.current, hc.current]
  · rw [hc'.doctype, h.doctype, hc.doctype]
  · rw [hc'.declaration, h.declaration, hc.declaration]
  · rw [hc'.pending, h.pending, hc.pending]

theorem update_same {stop : Nat} (hk : k.outline = (b.kindOf id).outline) :
    Mirrors {} b (b.update id k stop) := by
  refine ⟨fun i => ?_, rfl, rfl, rfl, rfl⟩
  simp only [Builder.update, Builder.modify, Array.getElem?_modify, retouch_default]
  split
  · rename_i hi
    subst hi
    cases hn : b.nodes[id]? with
    | none => rfl
    | some n =>
      rw [kindOf_eq hn] at hk
      simp [Node.outline, hk]
  · rfl

theorem extend_same (b : Builder) (id stop : Nat) : Mirrors {} b (b.extend id stop) := by
  refine ⟨fun i => ?_, rfl, rfl, rfl, rfl⟩
  simp only [Builder.extend, Builder.modify, Array.getElem?_modify, retouch_default]
  split
  · cases b.nodes[i]? <;> rfl
  · rfl

theorem foldl_extend_same (b : Builder) (ids : List Nat) (stop : Nat) :
    Mirrors {} b (ids.foldl (fun b id => b.extend id stop) b) := by
  induction ids generalizing b with
  | nil => exact refl b
  | cons id ids ih => exact (extend_same b id stop).same (refl b) (ih _)

/-! ## Declarations -/

theorem onDoctype_same {t : Token} {g : Doctype → Doctype}
    (hg : ∀ d, (g d).closed = d.closed ∧ (g d).synthetic = d.synthetic) :
    Mirrors {} b (b.onDoctype t g) := by
  unfold Builder.onDoctype
  split
  · split
    · rename_i d hd
      refine update_same ?_
      rw [hd, Kind.outline, Kind.outline, (hg d).1, (hg d).2]
    · exact extend_same ..
  · exact refl b

theorem unrecognized_same (t : Token) : Mirrors {} b (Builder.unrecognized s b t) := by
  unfold Builder.unrecognized
  split
  · split
    · rename_i d hd
      exact update_same (by rw [hd]; rfl)
    · rename_i d hd
      exact update_same (by rw [hd]; rfl)
    · exact refl b
  · exact refl b

theorem outline_addParameter (kind : Token.DtdKind) (p : Parameter) (content : Option Parameter)
    (body : Declaration.Body) : (addParameter kind p content body).outline = body.outline := by
  cases body <;> rfl

theorem declarationParameter_same (kind : Token.DtdKind) (t : Token) :
    Mirrors {} b (Builder.declarationParameter s b kind t) := by
  unfold Builder.declarationParameter
  split
  · exact refl b
  · have hmark : Mirrors {} b (if kind = .contentOpen then { b with contentStart := some t.start } else b) := by
      split
      · exact ⟨(refl b).node, rfl, rfl, rfl, rfl⟩
      · exact refl b
    dsimp only
    split
    · rename_i d hd
      refine hmark.same (refl b) (update_same ?_)
      rw [hd, Kind.outline, Kind.outline, outline_addParameter]
    · exact hmark

theorem doctypeParameter_same {kind : Token.DtdKind} {p : Parameter} (d : Doctype) :
    (addDoctypeParameter kind p d).closed = d.closed ∧
      (addDoctypeParameter kind p d).synthetic = d.synthetic := by
  cases kind <;> exact ⟨rfl, rfl⟩

section dtd
variable {t t' : Token} (h : Mirrors f b b')
include h

theorem openDeclaration {body : Declaration.Body} :
    Mirrors f (b.openDeclaration t body) (b'.openDeclaration t' body) := by
  have hopen : Mirrors f (b.leaveDeclaration.leaveClosedElement.openNode (.declaration { body }) t.span)
      (b'.leaveDeclaration.leaveClosedElement.openNode (.declaration { body }) t'.span) :=
    h.leaveDeclaration.leaveClosedElement.openNode rfl
  exact ⟨hopen.node, hopen.current, hopen.doctype, congrArg some hopen.current, hopen.pending⟩

theorem dropDeclaration (id : Nat) :
    Mirrors f { b with declaration := none, current := b.parentOf id }
      { b' with declaration := none, current := b'.parentOf id } :=
  ⟨h.node, h.parentOf id, h.doctype, rfl, h.pending⟩

theorem closeDeclaration :
    Mirrors f (dtdToken s b .declarationClose t inDtd) (dtdToken s' b' .declarationClose t' inDtd) := by
  unfold dtdToken
  dsimp only
  rw [h.declaration]
  cases b.declaration with
  | none => exact h
  | some id =>
    dsimp only
    by_cases hd : ∃ d, b.kindOf id = .declaration d
    · obtain ⟨d, hd⟩ := hd
      obtain ⟨d', hd', hbody, -⟩ := (h.kindOf_of_eq hd).declaration
      rw [hd, hd']
      apply dropDeclaration
      apply h.update
      simp only [Kind.Mirrors, Kind.outline, Retouch.kind, hbody]
    · have hd' := (h.kindOf id).ne_declaration fun d hk => hd ⟨d, hk⟩
      split
      · rename_i d hk
        exact absurd ⟨d, hk⟩ hd
      · simpa only [hd'] using (h.extend id).dropDeclaration id

theorem closeDoctype :
    Mirrors f (dtdToken s b .doctypeClose t inDtd) (dtdToken s' b' .doctypeClose t' inDtd) := by
  have hleft := h.leaveDeclaration
  unfold dtdToken
  dsimp only
  rw [hleft.doctype]
  cases hid : b.leaveDeclaration.doctype with
  | none => exact hleft
  | some id =>
    have hclosed : Mirrors f (b.leaveDeclaration.onDoctype t fun d => { d with closed := true })
        (b'.leaveDeclaration.onDoctype t' fun d => { d with closed := true }) := by
      unfold onDoctype
      rw [hleft.doctype, hid]
      dsimp only
      by_cases hd : ∃ d, b.leaveDeclaration.kindOf id = .doctype d
      · obtain ⟨d, hd⟩ := hd
        obtain ⟨d', hd', -, hsynthetic⟩ := (hleft.kindOf_of_eq hd).doctype
        rw [hd, hd']
        refine hleft.update ?_
        simp only [Kind.Mirrors, Kind.outline, Retouch.kind, hsynthetic]
      · have hd' := (hleft.kindOf id).ne_doctype fun d hk => hd ⟨d, hk⟩
        split
        · rename_i d hk
          exact absurd ⟨d, hk⟩ hd
        · simpa only [hd'] using hleft.extend id
    exact ⟨hclosed.node, hclosed.parentOf id, rfl, hclosed.declaration, hclosed.pending⟩

theorem dtdToken (kind : Token.DtdKind) (hfresh : f.onTag b.nodes.size none = none) :
    Mirrors f (dtdToken s b kind t inDtd) (dtdToken s' b' kind t' inDtd) := by
  have hparameter := h.same (declarationParameter_same (s := s) kind t)
    (declarationParameter_same (s := s') kind t')
  have hname := h.same
    (onDoctype_same (t := t) (g := addDoctypeParameter kind (Builder.parameter s t)) doctypeParameter_same)
    (onDoctype_same (t := t') (g := addDoctypeParameter kind (Builder.parameter s' t'))
      doctypeParameter_same)
  cases kind with
  | doctypeOpen =>
    have hopen : Mirrors f ((b.beforeMarkup t.start inDtd).openNode (.doctype {}) t.span)
        ((b'.beforeMarkup t'.start inDtd).openNode (.doctype {}) t'.span) :=
      (h.beforeMarkup hfresh).openNode rfl
    exact ⟨hopen.node, hopen.current, congrArg some hopen.current, hopen.declaration, hopen.pending⟩
  | subsetOpen => exact h.same (onDoctype_same fun _ => ⟨rfl, rfl⟩) (onDoctype_same fun _ => ⟨rfl, rfl⟩)
  | subsetClose =>
    exact h.leaveDeclaration.same (onDoctype_same fun _ => ⟨rfl, rfl⟩)
      (onDoctype_same fun _ => ⟨rfl, rfl⟩)
  | doctypeClose => exact h.closeDoctype
  | elementOpen | attlistOpen | entityOpen | notationOpen => exact h.openDeclaration
  | declarationClose => exact h.closeDeclaration
  | unrecognized => exact h.same (unrecognized_same t) (unrecognized_same t')
  | doctypeName | doctypePublic | doctypeSystem | doctypePublicId | doctypeSystemId => exact hname
  | _ => exact hparameter

end dtd

end Mirrors

/-! ## Tokens that do not fit the current node -/

section misfit
variable {fault : Option Token.Fault}

theorem step_tag_of_ne (h : ∀ e, b.kindOf b.current ≠ .element e) {kind : Token.Kind}
    (hk : kind = .startTagName ∨ kind = .unknown) : step s b ⟨kind, i, j, fault⟩ inDtd = b := by
  cases hkind : b.kindOf b.current with
  | element e => exact absurd hkind (h e)
  | _ => rcases hk with rfl | rfl <;> simp only [step, tagToken, hkind]

theorem step_tagClose_of_ne (h : ∀ e, b.kindOf b.current ≠ .element e) {kind : Token.Kind}
    (hk : kind = .startTagClose ∨ kind = .startTagSelfClose) :
    step s b ⟨kind, i, j, fault⟩ inDtd = { b with openAttribute := none } := by
  cases hkind : b.kindOf b.current with
  | element e => exact absurd hkind (h e)
  | _ => rcases hk with rfl | rfl <;> simp only [step, tagToken, hkind]

theorem step_instruction_of_ne (h : ∀ p, b.kindOf b.current ≠ .instruction p) {kind : Token.Kind}
    (hk : kind = .prologName ∨ kind = .instructionTarget ∨ kind = .instructionContent) :
    step s b ⟨kind, i, j, fault⟩ inDtd = b := by
  cases hkind : b.kindOf b.current with
  | instruction p => exact absurd hkind (h p)
  | _ => rcases hk with rfl | rfl | rfl <;> simp only [step, sectionToken, hkind]

theorem step_instructionClose_of_ne (h : ∀ p, b.kindOf b.current ≠ .instruction p) {kind : Token.Kind}
    (hk : kind = .instructionClose ∨ kind = .prologClose) :
    step s b ⟨kind, i, j, fault⟩ inDtd = { b with openAttribute := none } := by
  cases hkind : b.kindOf b.current with
  | instruction p => exact absurd hkind (h p)
  | _ => rcases hk with rfl | rfl <;> simp only [step, sectionToken, hkind]

theorem step_enclosed_of_ne (hcomment : ∀ c, b.kindOf b.current ≠ .comment c)
    (hcdata : ∀ c, b.kindOf b.current ≠ .cdata c) {kind : Token.Kind}
    (hk : kind = .commentText ∨ kind = .cdataText ∨ kind = .commentClose ∨ kind = .cdataClose) :
    step s b ⟨kind, i, j, fault⟩ inDtd = b := by
  cases hkind : b.kindOf b.current with
  | comment c => exact absurd hkind (hcomment c)
  | cdata c => exact absurd hkind (hcdata c)
  | _ => rcases hk with rfl | rfl | rfl | rfl <;> simp only [step, sectionToken, hkind]

theorem step_endTagClose_of_some {start : Nat} (h : b.endTagOpen = some start) :
    step s b ⟨.endTagClose, i, j, fault⟩ inDtd = b.flushEndTag j (some i) := by
  simp only [step, tagToken, h, Option.isSome_some, if_true]

theorem step_endTagClose_of_ne (hpending : b.endTagOpen = none)
    (h : ∀ e, b.kindOf b.current = .element e → (e.closed && e.endOpen.isSome) = false) :
    step s b ⟨.endTagClose, i, j, fault⟩ inDtd = b := by
  cases hkind : b.kindOf b.current with
  | element e =>
    simp only [step, tagToken, hkind, hpending, h e hkind, Option.isSome_none, Bool.false_eq_true,
      if_false]
  | _ => simp only [step, tagToken, hkind, hpending, Option.isSome_none, Bool.false_eq_true, if_false]

end misfit

namespace Mirrors

/-! ## Changes of the current node -/

variable (h : Mirrors f b b')
include h

theorem updateElement {e e' : Element} (he : e'.outline = { e.outline with tag := f.onTag id e.tag }) :
    Mirrors f (b.update id (.element e) j) (b'.update id (.element e') j') :=
  h.update (by rw [Kind.Mirrors, Kind.outline, Kind.outline, Retouch.kind, he]; rfl)

theorem updateCurrent {e e' : Element}
    (he : e'.outline = { e.outline with tag := f.onTag b.current e.tag }) :
    Mirrors f (b.update b.current (.element e) j) (b'.update b'.current (.element e') j') := by
  rw [h.current]
  exact h.updateElement he

theorem currentElement {e : Element} (he : b.kindOf b.current = .element e) :
    ∃ e', b'.kindOf b'.current = .element e' ∧
      e'.outline = { e.outline with tag := f.onTag b.current e.tag } := by
  rw [h.current]
  exact (h.kindOf_of_eq he).ofElement

theorem currentNoElement (hk : ∀ e, b.kindOf b.current ≠ .element e) :
    ∀ e, b'.kindOf b'.current ≠ .element e := by
  rw [h.current]
  exact (h.kindOf _).ne_element hk

theorem step_startTagName (hw : f.onTag b.current (some (Text.slice s i j)) = some (Text.slice s' i' j')) :
    Mirrors f (step s b ⟨.startTagName, i, j, fault⟩ inDtd)
      (step s' b' ⟨.startTagName, i', j', fault'⟩ inDtd) := by
  by_cases hk : ∃ e, b.kindOf b.current = .element e
  · obtain ⟨e, he⟩ := hk
    obtain ⟨e', he', hsame⟩ := h.currentElement he
    rw [Builder.step_startTagName he, Builder.step_startTagName he']
    refine h.updateCurrent ?_
    simp_all [Element.outline]
  · rw [not_exists] at hk
    rw [step_tag_of_ne hk (.inl rfl), step_tag_of_ne (h.currentNoElement hk) (.inl rfl)]
    exact h

theorem step_startTagClose :
    Mirrors f (step s b ⟨.startTagClose, i, j, fault⟩ inDtd)
      (step s' b' ⟨.startTagClose, i', j', fault'⟩ inDtd) := by
  by_cases hk : ∃ e, b.kindOf b.current = .element e
  · obtain ⟨e, he⟩ := hk
    obtain ⟨e', he', hsame⟩ := h.currentElement he
    rw [Builder.step_startTagClose he, Builder.step_startTagClose he']
    refine h.forget.updateCurrent ?_
    simp_all [Element.outline]
  · rw [not_exists] at hk
    rw [step_tagClose_of_ne hk (.inl rfl), step_tagClose_of_ne (h.currentNoElement hk) (.inl rfl)]
    exact h.forget

theorem step_startTagSelfClose :
    Mirrors f (step s b ⟨.startTagSelfClose, i, j, fault⟩ inDtd)
      (step s' b' ⟨.startTagSelfClose, i', j', fault'⟩ inDtd) := by
  by_cases hk : ∃ e, b.kindOf b.current = .element e
  · obtain ⟨e, he⟩ := hk
    obtain ⟨e', he', hsame⟩ := h.currentElement he
    rw [Builder.step_startTagSelfClose he, Builder.step_startTagSelfClose he']
    refine (h.forget.updateCurrent ?_).leave
    simp_all [Element.outline]
  · rw [not_exists] at hk
    rw [step_tagClose_of_ne hk (.inr rfl), step_tagClose_of_ne (h.currentNoElement hk) (.inr rfl)]
    exact h.forget

theorem step_endTagClose (hfresh : f.onTag b.nodes.size none = none) :
    Mirrors f (step s b ⟨.endTagClose, i, j, fault⟩ inDtd)
      (step s' b' ⟨.endTagClose, i', j', fault'⟩ inDtd) := by
  have hpending := h.pending
  cases ho : b.endTagOpen with
  | some start =>
    rw [ho, Option.isSome_some, Option.isSome_iff_exists] at hpending
    obtain ⟨start', ho'⟩ := hpending
    rw [step_endTagClose_of_some ho, step_endTagClose_of_some ho']
    exact h.flushEndTag rfl hfresh
  | none =>
    rw [ho, Option.isSome_none, Option.isSome_eq_false_iff, Option.isNone_iff_eq_none] at hpending
    by_cases hk : ∃ e, b.kindOf b.current = .element e
    · obtain ⟨e, he⟩ := hk
      obtain ⟨e', he', hsame⟩ := h.currentElement he
      have hclosed : e'.closed = e.closed := (Element.mk.inj hsame).2.2.2.2.2.2.2.2.1
      have hend : e'.endOpen.isSome = e.endOpen.isSome := by
        simpa [Element.outline] using congrArg Option.isSome (Element.mk.inj hsame).2.2.2.2.1
      by_cases hdone : (e.closed && e.endOpen.isSome) = true
      · have hdone' : (e'.closed && e'.endOpen.isSome) = true := by rw [hclosed, hend, hdone]
        rw [Bool.and_eq_true] at hdone hdone'
        rw [Builder.step_endTagClose he ho hdone.1 hdone.2,
          Builder.step_endTagClose he' hpending hdone'.1 hdone'.2]
        refine (h.updateCurrent ?_).leave
        simp_all [Element.outline]
      · rw [Bool.not_eq_true] at hdone
        rw [step_endTagClose_of_ne ho, step_endTagClose_of_ne hpending]
        · exact h
        · intro d hd
          obtain rfl := Kind.element.inj (he'.symm.trans hd)
          rw [hclosed, hend, hdone]
        · intro d hd
          obtain rfl := Kind.element.inj (he.symm.trans hd)
          exact hdone
    · rw [not_exists] at hk
      rw [step_endTagClose_of_ne ho fun e he => absurd he (hk e),
        step_endTagClose_of_ne hpending fun e he => absurd he (h.currentNoElement hk e)]
      exact h

theorem step_unknown :
    Mirrors f (step s b ⟨.unknown, i, j, fault⟩ inDtd) (step s' b' ⟨.unknown, i', j', fault'⟩ inDtd) := by
  have hsame {s : String} {b : Builder} {i j : Nat} {fault : Option Token.Fault} :
      Mirrors {} b (step s b ⟨.unknown, i, j, fault⟩ inDtd) := by
    cases hk : b.kindOf b.current with
    | element e =>
      simp only [step, tagToken, hk]
      split
      · exact extend_same ..
      · exact refl b
    | _ =>
      simp only [step, tagToken, hk]
      exact refl b
  exact h.same hsame hsame

omit h in
theorem closeNearest_same (start : Nat) {t : Token}
    (hfind : (Node.chain b.nodes b.current).find? (b.isOpenAs (t.written s)) = some id) :
    ∃ e c, b.kindOf id = .element e ∧ c.kindOf id = .element e ∧ Mirrors {} b c ∧
      closeNearest s b start t = { c.update id (.element
          { e with closed := true, endOpen := some start, endTagSpan := some t.span }) t.stop with
        current := id } := by
  have hopen := List.find?_some hfind
  unfold isOpenAs at hopen
  split at hopen
  · rename_i e he
    refine ⟨e, _, he, ?_, foldl_extend_same b
      ((Node.chain b.nodes b.current).takeWhile (!b.isOpenAs (t.written s) ·)) start, ?_⟩
    · rw [foldl_extend, kindOf_reach, he]
    · rw [closeNearest, hfind]
      dsimp only
      rw [closeAt_eq he, foldl_extend]
  · cases hopen

omit h in
theorem closeNearest_stray {start : Nat} {t : Token}
    (hfind : (Node.chain b.nodes b.current).find? (b.isOpenAs (t.written s)) = none) :
    closeNearest s b start t =
      b.openNode (.element (strayElement (t.written s) start t)) ⟨start, t.stop⟩ := by
  rw [closeNearest, hfind]

theorem step_endTagName (t t' : Token)
    (hfind : (Node.chain b.nodes b.current).find? (b'.isOpenAs (t'.written s')) =
      (Node.chain b.nodes b.current).find? (b.isOpenAs (t.written s)))
    (hw : (Node.chain b.nodes b.current).find? (b.isOpenAs (t.written s)) = none →
      f.onTag b.nodes.size (some (t.written s)) = some (t'.written s')) :
    Mirrors f (endTag s b t) (endTag s' b' t') := by
  have hforget : Mirrors f { b with endTagOpen := none } { b' with endTagOpen := none } :=
    ⟨h.node, h.current, h.doctype, h.declaration, rfl⟩
  show Mirrors f (closeNearest s { b with endTagOpen := none } (b.endTagOpen.getD (t.start - 2)) t)
    (closeNearest s' { b' with endTagOpen := none } (b'.endTagOpen.getD (t'.start - 2)) t')
  have hchain : Node.chain b'.nodes b'.current = Node.chain b.nodes b.current := by
    rw [h.current, h.chain]
  cases hopen : (Node.chain b.nodes b.current).find? (b.isOpenAs (t.written s)) with
  | some id =>
    obtain ⟨e, c, he, hc, hsame, heq⟩ := closeNearest_same (b := { b with endTagOpen := none })
      (b.endTagOpen.getD (t.start - 2)) hopen
    obtain ⟨e', c', he', hc', hsame', heq'⟩ := closeNearest_same (b := { b' with endTagOpen := none })
      (b'.endTagOpen.getD (t'.start - 2)) (hchain ▸ hfind.trans hopen)
    rw [heq, heq']
    obtain ⟨d, hd, houtline⟩ := (h.kindOf_of_eq he).ofElement
    obtain rfl := Kind.element.inj (he'.symm.trans hd)
    refine ((hforget.same hsame hsame').updateElement ?_).withCurrent id
    simp_all [Element.outline]
  | none =>
    have hopen' : (Node.chain b'.nodes b'.current).find? (b'.isOpenAs (t'.written s')) = none :=
      hchain ▸ hfind.trans hopen
    rw [closeNearest_stray (b := { b with endTagOpen := none }) hopen,
      closeNearest_stray (b := { b' with endTagOpen := none }) hopen']
    refine hforget.openNode ?_
    simp [Kind.Mirrors, Kind.outline, strayElement, Element.outline, Retouch.kind, hw hopen]

/-! ## Attributes -/

omit h in
theorem withAttribute_mirrors (hk : k.Mirrors f id k') (a : Nat) :
    (Builder.withAttribute a k = none ∧ Builder.withAttribute a k' = none) ∨
      ∃ m m', Builder.withAttribute a k = some m ∧ Builder.withAttribute a k' = some m' ∧
        m.Mirrors f id m' := by
  cases k with
  | element e =>
    obtain ⟨e', rfl, he⟩ := hk.ofElement
    refine .inr ⟨_, _, rfl, rfl, ?_⟩
    simp_all [Kind.Mirrors, Kind.outline, Retouch.kind, Element.outline]
  | instruction p =>
    obtain ⟨p', rfl, hp⟩ := hk.instruction
    have hprolog : p'.isProlog = p.isProlog := by simp_all [Kind.outline]
    simp only [Builder.withAttribute, hprolog]
    split
    · refine .inr ⟨_, _, rfl, rfl, ?_⟩
      simp_all [Kind.Mirrors, Kind.outline, Retouch.kind]
    · exact .inl ⟨rfl, rfl⟩
  | _ => cases k' <;> simp_all [Kind.Mirrors, Kind.outline, Retouch.kind, Builder.withAttribute]

theorem step_attributeName {t t' : Token} (hname : f.onAttribute b.nodes.size
      { name := t.written s, nameSpan := {} } = { name := t'.written s', nameSpan := {} }) :
    Mirrors f (attributeName s b t) (attributeName s' b' t') := by
  have hkinds := withAttribute_mirrors (h.kindOf b.current) b.nodes.size
  nth_rewrite 2 [← h.size] at hkinds
  nth_rewrite 3 [← h.size] at hkinds
  unfold attributeName
  dsimp only
  rw [h.current]
  rcases hkinds with ⟨hk, hk'⟩ | ⟨m, m', hk, hk', hm⟩
  · rw [hk, hk']
    exact h
  · rw [hk, hk']
    have hupdate : Mirrors f (b.update b.current m t.stop) (b'.update b'.current m' t'.stop) := by
      rw [h.current]
      exact h.update hm
    have hattribute : (Kind.attribute { name := t.written s, nameSpan := t.span }).Mirrors f
        (b.update b.current m t.stop).nodes.size
        (.attribute { name := t'.written s', nameSpan := t'.span }) := by
      rw [size_update]
      exact congrArg Kind.attribute hname.symm
    have hpush := hupdate.push t.span t'.span hattribute
    rw [h.current] at hpush
    exact ⟨hpush.node, hpush.current, hpush.doctype, hpush.declaration, hpush.pending⟩

theorem onAttribute {g g' : Attribute → Builder} (hc : Mirrors f c c')
    (hg : ∀ a a', b.kindOf id = .attribute a → a'.outline = f.onAttribute id a.outline →
      Mirrors f (g a) (g' a')) :
    Mirrors f (match b.kindOf id with | .attribute a => g a | _ => c)
      (match b'.kindOf id with | .attribute a => g' a | _ => c') := by
  by_cases ha : ∃ a, b.kindOf id = .attribute a
  · obtain ⟨a, ha⟩ := ha
    obtain ⟨a', ha', hsame⟩ := (h.kindOf_of_eq ha).ofAttribute
    rw [ha, ha']
    exact hg a a' ha hsame
  · have hkeep := (h.kindOf id).ne_attribute fun a hk => ha ⟨a, hk⟩
    split
    · rename_i a hk
      exact absurd ⟨a, hk⟩ ha
    · simpa only [hkeep] using hc

theorem step_assign {t t' : Token} (hopen : b'.openAttribute = b.openAttribute)
    (hassign : ∀ id ∈ b.openAttribute, ∀ a,
      f.onAttribute id { a with hasDelimiter := true } = { f.onAttribute id a with hasDelimiter := true }) :
    Mirrors f (assign b t) (assign b' t') := by
  have hextend {c c' : Builder} (hc : Mirrors f c c') :
      Mirrors f (c.extend c.current t.stop) (c'.extend c'.current t'.stop) := hc.current ▸ hc.extend _
  unfold assign
  rw [hopen]
  refine hextend ?_
  cases ho : b.openAttribute with
  | none => exact h
  | some id =>
    refine h.onAttribute h fun a a' ha hsame => h.modify id fun n n' hn => ?_
    have hparent := congrArg Node.parent hn
    have hchildren := congrArg Node.children hn
    simp only [Node.outline, Retouch.node, Kind.outline, Retouch.kind] at hparent hchildren ⊢
    rw [hparent, hchildren, show ({ a with hasDelimiter := true } : Attribute).outline =
      { a.outline with hasDelimiter := true } from rfl, hassign id ho, ← hsame]
    rfl

theorem step_attributeValue {t t' : Token} (hopen : b'.openAttribute = b.openAttribute)
    (hvalue : ∀ id ∈ b.openAttribute, ∀ a, f.onAttribute id (a.withValue (t.written s) {}) =
      (f.onAttribute id a).withValue (t'.written s') {}) :
    Mirrors f (attributeValue s b t) (attributeValue s' b' t') := by
  have hextend {c c' : Builder} (hc : Mirrors f c c') :
      Mirrors f (c.extend c.current t.stop) (c'.extend c'.current t'.stop) := hc.current ▸ hc.extend _
  unfold attributeValue
  rw [hopen]
  refine hextend ?_
  cases ho : b.openAttribute with
  | none => exact h
  | some id =>
    refine h.forget.onAttribute (h.forget.extend id) fun a a' ha hsame => h.forget.update ?_
    have hset : (a.withValue (t.written s) t.span).outline = a.outline.withValue (t.written s) {} := rfl
    have hset' : (a'.withValue (t'.written s') t'.span).outline = a'.outline.withValue (t'.written s') {} :=
      rfl
    refine congrArg Kind.attribute (hset'.trans ?_)
    rw [hsame, ← hvalue id ho]
    exact congrArg _ hset.symm

/-! ## Comments, CDATA sections and instructions -/

theorem kindOf_current : (b.kindOf b.current).Mirrors f b.current (b'.kindOf b'.current) :=
  h.current ▸ h.kindOf b.current

theorem updateSection (hk : k.Mirrors f b.current k') :
    Mirrors f (b.update b.current k j) (b'.update b'.current k' j') := by
  rw [h.current]
  exact h.update hk

theorem step_enclosed_misfit {kind : Token.Kind} (hcomment : ∀ c, b.kindOf b.current ≠ .comment c)
    (hcdata : ∀ c, b.kindOf b.current ≠ .cdata c)
    (hkind : kind = .commentText ∨ kind = .cdataText ∨ kind = .commentClose ∨ kind = .cdataClose) :
    Mirrors f (step s b ⟨kind, i, j, fault⟩ inDtd) (step s' b' ⟨kind, i', j', fault'⟩ inDtd) := by
  rw [step_enclosed_of_ne hcomment hcdata hkind, step_enclosed_of_ne
    (h.kindOf_current.ne_comment hcomment) (h.kindOf_current.ne_cdata hcdata) hkind]
  exact h

theorem step_enclosedText {kind : Token.Kind} (hkind : kind = .commentText ∨ kind = .cdataText) :
    Mirrors f (step s b ⟨kind, i, j, fault⟩ inDtd) (step s' b' ⟨kind, i', j', fault'⟩ inDtd) := by
  by_cases hcomment : ∃ c, b.kindOf b.current = .comment c
  · obtain ⟨c, hc⟩ := hcomment
    obtain ⟨c', hc', hclosed⟩ := (hc ▸ h.kindOf_current).comment
    rw [step_text_of_comment hc hkind, step_text_of_comment hc' hkind]
    refine h.updateSection ?_
    simp [Kind.Mirrors, Kind.outline, Retouch.kind, hclosed]
  by_cases hcdata : ∃ c, b.kindOf b.current = .cdata c
  · obtain ⟨c, hc⟩ := hcdata
    obtain ⟨c', hc', hclosed⟩ := (hc ▸ h.kindOf_current).cdata
    rw [step_text_of_cdata hc hkind, step_text_of_cdata hc' hkind]
    refine h.updateSection ?_
    simp [Kind.Mirrors, Kind.outline, Retouch.kind, hclosed]
  · exact h.step_enclosed_misfit (not_exists.mp hcomment) (not_exists.mp hcdata)
      (hkind.imp_right .inl)

theorem step_enclosedClose {kind : Token.Kind} (hkind : kind = .commentClose ∨ kind = .cdataClose) :
    Mirrors f (step s b ⟨kind, i, j, fault⟩ inDtd) (step s' b' ⟨kind, i', j', fault'⟩ inDtd) := by
  by_cases hcomment : ∃ c, b.kindOf b.current = .comment c
  · obtain ⟨c, hc⟩ := hcomment
    obtain ⟨c', hc', -⟩ := (hc ▸ h.kindOf_current).comment
    have hsame := (hc ▸ hc' ▸ h.kindOf_current : (Kind.comment c).Mirrors f b.current (.comment c'))
    rw [step_close_of_comment hc hkind, step_close_of_comment hc' hkind]
    refine (h.updateSection ?_).leave
    simp_all [Kind.Mirrors, Kind.outline, Retouch.kind]
  by_cases hcdata : ∃ c, b.kindOf b.current = .cdata c
  · obtain ⟨c, hc⟩ := hcdata
    obtain ⟨c', hc', -⟩ := (hc ▸ h.kindOf_current).cdata
    have hsame := (hc ▸ hc' ▸ h.kindOf_current : (Kind.cdata c).Mirrors f b.current (.cdata c'))
    rw [step_close_of_cdata hc hkind, step_close_of_cdata hc' hkind]
    refine (h.updateSection ?_).leave
    simp_all [Kind.Mirrors, Kind.outline, Retouch.kind]
  · exact h.step_enclosed_misfit (not_exists.mp hcomment) (not_exists.mp hcdata)
      (.inr (.inr hkind))

theorem step_instruction {kind : Token.Kind} (hw : kind ≠ .instructionContent →
      Text.slice s' i' j' = Text.slice s i j)
    (hkind : kind = .prologName ∨ kind = .instructionTarget ∨ kind = .instructionContent) :
    Mirrors f (step s b ⟨kind, i, j, fault⟩ inDtd) (step s' b' ⟨kind, i', j', fault'⟩ inDtd) := by
  by_cases hp : ∃ p, b.kindOf b.current = .instruction p
  · obtain ⟨p, hp⟩ := hp
    obtain ⟨p', hp', hsame⟩ := (hp ▸ h.kindOf_current).instruction
    simp only [Kind.outline, Kind.instruction.injEq] at hsame
    rcases hkind with rfl | rfl | rfl
    · rw [step_prologName hp, step_prologName hp', hw nofun]
      refine h.updateSection ?_
      simp_all [Kind.Mirrors, Kind.outline, Retouch.kind]
    · rw [step_instructionTarget hp, step_instructionTarget hp', hw nofun]
      refine h.updateSection ?_
      simp_all [Kind.Mirrors, Kind.outline, Retouch.kind]
    · rw [step_instructionContent hp, step_instructionContent hp']
      refine h.updateSection ?_
      simp_all [Kind.Mirrors, Kind.outline, Retouch.kind]
  · have hne := h.kindOf_current.ne_instruction (not_exists.mp hp)
    rw [step_instruction_of_ne (not_exists.mp hp) hkind, step_instruction_of_ne hne hkind]
    exact h

theorem step_instructionClose {kind : Token.Kind}
    (hkind : kind = .instructionClose ∨ kind = .prologClose) :
    Mirrors f (step s b ⟨kind, i, j, fault⟩ inDtd) (step s' b' ⟨kind, i', j', fault'⟩ inDtd) := by
  by_cases hp : ∃ p, b.kindOf b.current = .instruction p
  · obtain ⟨p, hp⟩ := hp
    obtain ⟨p', hp', hsame⟩ := (hp ▸ h.kindOf_current).instruction
    rw [step_close_of_instruction hp hkind, step_close_of_instruction hp' hkind]
    refine (h.forget.updateSection ?_).leave
    simp_all [Kind.Mirrors, Kind.outline, Retouch.kind]
  · have hne := h.kindOf_current.ne_instruction (not_exists.mp hp)
    rw [step_instructionClose_of_ne (not_exists.mp hp) hkind, step_instructionClose_of_ne hne hkind]
    exact h.forget

/-! ## A token -/

/-- **Mirrored outlines stay so over a token.** -/
theorem step {t t' : Token} (hkind : t'.kind = t.kind)
    (hopen : t.kind = .assign ∨ t.kind = .attributeValue → b'.openAttribute = b.openAttribute)
    (hs : f.Suits b b' t.kind (t.written s) (t'.written s')) :
    Mirrors f (step s b t inDtd) (step s' b' t' inDtd) := by
  obtain ⟨kind, i, j, fault⟩ := t
  obtain ⟨kind', i', j', fault'⟩ := t'
  obtain rfl : kind = kind' := hkind.symm
  have hfresh := hs.fresh b.nodes.size
  have hbefore : Mirrors f (b.beforeMarkup i inDtd) (b'.beforeMarkup i' inDtd) := h.beforeMarkup hfresh
  cases kind with
  | startTagOpen =>
    rw [step_startTagOpen, step_startTagOpen]
    refine hbefore.openNode ?_
    simp [Kind.Mirrors, Kind.outline, Retouch.kind, Element.outline, hs.fresh]
  | startTagName => exact h.step_startTagName (hs.startTag rfl)
  | startTagClose => exact h.step_startTagClose
  | startTagSelfClose => exact h.step_startTagSelfClose
  | endTagOpen =>
    rw [step_endTagOpen, step_endTagOpen]
    exact ⟨hbefore.node, hbefore.current, hbefore.doctype, hbefore.declaration, rfl⟩
  | endTagName =>
    rw [Builder.step_endTagName, Builder.step_endTagName]
    exact h.step_endTagName ⟨.endTagName, i, j, fault⟩ ⟨.endTagName, i', j', fault'⟩
      (hs.endTag rfl).2 (hs.endTag rfl).1
  | endTagClose => exact h.step_endTagClose hfresh
  | attributeName =>
    rw [Builder.step_attributeName, Builder.step_attributeName]
    exact h.step_attributeName (hs.name rfl)
  | assign =>
    rw [Builder.step_assign, Builder.step_assign]
    exact h.step_assign (hopen (.inl rfl)) (hs.assign rfl)
  | attributeValue =>
    rw [Builder.step_attributeValue, Builder.step_attributeValue]
    exact h.step_attributeValue (hopen (.inr rfl)) (hs.value rfl)
  | unknown => exact h.step_unknown
  | blank | eos => exact h
  | text =>
    rw [step_text, step_text]
    exact hbefore.append rfl
  | commentOpen =>
    rw [step_commentOpen, step_commentOpen]
    exact hbefore.openNode rfl
  | cdataOpen =>
    rw [step_cdataOpen, step_cdataOpen]
    exact hbefore.openNode rfl
  | instructionOpen =>
    rw [step_instructionOpen, step_instructionOpen]
    exact hbefore.openNode rfl
  | commentText => exact h.step_enclosedText (.inl rfl)
  | cdataText => exact h.step_enclosedText (.inr rfl)
  | commentClose => exact h.step_enclosedClose (.inl rfl)
  | cdataClose => exact h.step_enclosedClose (.inr rfl)
  | prologName => exact h.step_instruction (fun _ => hs.target (.inl rfl)) (.inl rfl)
  | instructionTarget => exact h.step_instruction (fun _ => hs.target (.inr rfl)) (.inr (.inl rfl))
  | instructionContent => exact h.step_instruction (fun hne => absurd rfl hne) (.inr (.inr rfl))
  | instructionClose => exact h.step_instructionClose (.inl rfl)
  | prologClose => exact h.step_instructionClose (.inr rfl)
  | dtd kind =>
    rw [step_dtd, step_dtd]
    exact h.dtdToken kind hfresh

end Mirrors

end Builder

end XmlAssist
