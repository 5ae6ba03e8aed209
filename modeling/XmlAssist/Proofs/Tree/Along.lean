import XmlAssist.Proofs.Lexer.Passage
import XmlAssist.Proofs.Tree.Mirror
import XmlAssist.Proofs.Tree.Recovery

/-!
# The builder along a reading

`Builder.behind` is the builder behind some of the tokens of a text. What it comes to can be said of a
part of the text, and where something comes to hold on the way there is a token that does it
(`Follows.exists_turn`). Two readings of the same tokens in two texts come to mirrored outlines
(`Mirrors.behind`).
-/

namespace XmlAssist

open Node
open Text (size isBoundary)
open Lexer (Leads)

/-- Tokens of the kind are the last that an attribute can be open at. -/
def Token.Kind.endsAttribute : Token.Kind → Bool
  | .text | .commentOpen | .cdataOpen | .instructionOpen | .startTagOpen | .endTagOpen
  | .dtd .doctypeOpen | .startTagClose | .startTagSelfClose | .instructionClose | .prologClose
  | .attributeValue => true
  | _ => false

/-- The same is read in both texts, wherever it stands there. -/
structure SameToken (s s' : String) (p p' : Token × Lexer) : Prop where
  kind : p'.1.kind = p.1.kind
  written : p'.1.written s' = p.1.written s
  inDtd : p'.2.inDtd = p.2.inDtd

namespace Builder

variable {s s' : String} {x y : Lexer} {l l' : List (Token × Lexer)} {b b' : Builder}
variable {f : Retouch} {t t' : Token} {inDtd : Bool}

/-- The builder behind the tokens. -/
def behind (s : String) (l : List (Token × Lexer)) (b : Builder) : Builder :=
  l.foldl (fun b p => step s b p.1 p.2.inDtd) b

@[simp] theorem behind_nil (s : String) (b : Builder) : behind s [] b = b := rfl

@[simp] theorem behind_cons (s : String) (p : Token × Lexer) (l : List (Token × Lexer)) (b : Builder) :
    behind s (p :: l) b = behind s l (step s b p.1 p.2.inDtd) := rfl

theorem behind_append (s : String) (l r : List (Token × Lexer)) (b : Builder) :
    behind s (l ++ r) b = behind s r (behind s l b) := List.foldl_append

theorem behind_concat (s : String) (l : List (Token × Lexer)) (p : Token × Lexer) (b : Builder) :
    behind s (l ++ [p]) b = step s (behind s l b) p.1 p.2.inDtd := List.foldl_concat ..

theorem run_eq_behind (h : Leads s x l y) (hx : isBoundary s x.pos = true) (hy : y.pos = size s)
    (b : Builder) : run s x b = behind s l b := by
  rw [run, h.tokens_eq hx, Lexer.tokens_at_end (Nat.le_of_eq hy.symm), List.append_nil]
  rfl

theorem build_eq_behind (h : Leads s .document l y) (hy : y.pos = size s) :
    build s false = (atEnd s (behind s l (start s false))).nodes := by
  rw [build_eq]
  exact congrArg (fun b => (atEnd s b).nodes) (run_eq_behind h (Text.isBoundary_zero s) hy _)

theorem Follows.behind_keeps {Q : Builder → Prop} (h : Follows s x b) (hl : Leads s x l y) (hq : Q b)
    (hstep : ∀ x b t b', Follows s x b → Acts s b t b' → Q b → Q b') :
    Follows s y (behind s l b) ∧ Q (behind s l b) := by
  induction hl generalizing b with
  | here => exact ⟨h, hq⟩
  | next hlt _ ih =>
    obtain ⟨hacts, hnext⟩ := h.next hlt
    exact ih hnext (hstep _ _ _ _ h hacts hq)

theorem Follows.behind (h : Follows s x b) (hl : Leads s x l y) : Follows s y (behind s l b) :=
  (h.behind_keeps (Q := fun _ => True) hl trivial fun _ _ _ _ _ _ h => h).1

/-- What does not hold before a reading but behind it comes to hold at one of the tokens. -/
theorem exists_turn {P : Builder → Prop} (hl : Leads s x l y) (hb : ¬ P b) (hend : P (Builder.behind s l b)) :
    ∃ l₁ z l₂, Leads s x l₁ z ∧ z.pos < size s ∧ Leads s (z.step s).2 l₂ y ∧
      l = l₁ ++ z.step s :: l₂ ∧ ¬ P (Builder.behind s l₁ b) ∧
      P (step s (Builder.behind s l₁ b) (z.step s).1 (z.step s).2.inDtd) := by
  induction hl generalizing b with
  | here => exact absurd hend hb
  | @next x y l hlt hrest ih =>
    by_cases hfirst : P (step s b (x.step s).1 (x.step s).2.inDtd)
    · exact ⟨[], x, l, .here x, hlt, hrest, rfl, hb, hfirst⟩
    · obtain ⟨l₁, z, l₂, h₁, hz, h₂, rfl, hbefore, hafter⟩ := ih hfirst hend
      exact ⟨x.step s :: l₁, z, l₂, .next hlt h₁, hz, h₂, rfl, hbefore, hafter⟩

/-! ## The open attribute -/

theorem openAttribute_flushEndTag (b : Builder) (stop : Nat) (close : Option Nat) :
    (b.flushEndTag stop close).openAttribute = b.openAttribute := by
  unfold flushEndTag
  split <;> rfl

theorem openAttribute_onDoctype (b : Builder) (t : Token) (g : Doctype → Doctype) :
    (b.onDoctype t g).openAttribute = b.openAttribute := by
  unfold onDoctype
  split
  · split <;> rfl
  · rfl

theorem openAttribute_unrecognized (s : String) (b : Builder) (t : Token) :
    (unrecognized s b t).openAttribute = b.openAttribute := by
  unfold unrecognized
  split
  · split <;> rfl
  · rfl

theorem openAttribute_declarationParameter (s : String) (b : Builder) (kind : Token.DtdKind) (t : Token) :
    (declarationParameter s b kind t).openAttribute = b.openAttribute := by
  unfold declarationParameter
  split
  · rfl
  · dsimp only
    split <;> (try rw [update, modify]) <;> split <;> rfl

theorem openAttribute_openDeclaration (b : Builder) (t : Token) (body : Declaration.Body) :
    (b.openDeclaration t body).openAttribute = b.openAttribute :=
  (openAttribute_leaveClosedElement _).trans (openAttribute_leaveDeclaration b)

theorem openAttribute_dtdToken (kind : Token.DtdKind) : (dtdToken s b kind t inDtd).openAttribute =
    if kind = .doctypeOpen then none else b.openAttribute := by
  cases kind with
  | doctypeOpen => exact openAttribute_beforeMarkup ..
  | subsetOpen | doctypeName | doctypePublic | doctypeSystem | doctypePublicId | doctypeSystemId =>
    exact openAttribute_onDoctype ..
  | subsetClose => exact (openAttribute_onDoctype ..).trans (openAttribute_leaveDeclaration b)
  | doctypeClose =>
    simp only [dtdToken, reduceCtorEq, if_false]
    split
    · exact (openAttribute_onDoctype ..).trans (openAttribute_leaveDeclaration b)
    · exact openAttribute_leaveDeclaration b
  | elementOpen | attlistOpen | entityOpen | notationOpen => exact openAttribute_openDeclaration ..
  | declarationClose =>
    simp only [dtdToken, reduceCtorEq, if_false]
    split
    · dsimp only
      split <;> rfl
    · rfl
  | unrecognized => exact openAttribute_unrecognized ..
  | _ => exact openAttribute_declarationParameter ..

theorem openAttribute_closeNearest (start : Nat) (t : Token) :
    (closeNearest s b start t).openAttribute = b.openAttribute := by
  unfold closeNearest
  split
  · rename_i ids id _
    have hextend (ids : List Nat) (b : Builder) :
        (ids.foldl (fun b i => b.extend i start) b).openAttribute = b.openAttribute := by
      induction ids generalizing b with
      | nil => rfl
      | cons i ids ih => exact ih _
    unfold closeAt
    dsimp only
    split <;> exact hextend ..
  · rfl

theorem openAttribute_step (hkind : t.kind ≠ .attributeName) : (step s b t inDtd).openAttribute =
    if t.kind.endsAttribute then none else b.openAttribute := by
  obtain ⟨kind, i, j, fault⟩ := t
  cases kind with
  | attributeName => exact absurd rfl hkind
  | text | commentOpen | cdataOpen | instructionOpen | startTagOpen | endTagOpen =>
    simp only [step, tagToken, sectionToken]
    exact openAttribute_beforeMarkup ..
  | blank | eos => rfl
  | endTagName => exact openAttribute_closeNearest (b := { b with endTagOpen := none }) ..
  | endTagClose =>
    simp only [step, tagToken]
    split
    · exact openAttribute_flushEndTag ..
    · cases b.kindOf b.current <;> first | rfl | (dsimp only; split <;> rfl)
  | assign =>
    simp only [step, assign]
    cases ho : b.openAttribute with
    | none => exact ho
    | some id => cases hk : b.kindOf id <;> simp only [hk] <;> exact ho
  | attributeValue =>
    simp only [step, attributeValue]
    cases ho : b.openAttribute with
    | none => exact ho
    | some id => cases hk : kindOf { b with openAttribute := none } id <;> simp only [hk] <;> rfl
  | dtd kind =>
    rw [step_dtd, openAttribute_dtdToken]
    cases kind <;> rfl
  | unknown =>
    cases hk : b.kindOf b.current <;> simp only [step, tagToken, hk] <;> first | rfl | (split <;> rfl)
  | _ => cases hk : b.kindOf b.current <;> simp only [step, tagToken, sectionToken, hk] <;> rfl

theorem openAttribute_attributeName : (attributeName s b t).openAttribute =
    if (withAttribute b.nodes.size (b.kindOf b.current)).isSome then some b.nodes.size
    else b.openAttribute := by
  unfold attributeName
  dsimp only
  cases withAttribute b.nodes.size (b.kindOf b.current) <;> rfl

theorem Mirrors.openAttribute_step (h : Mirrors f b b') (hopen : b'.openAttribute = b.openAttribute)
    (hkind : t'.kind = t.kind) :
    (Builder.step s' b' t' inDtd).openAttribute = (Builder.step s b t inDtd).openAttribute := by
  by_cases hname : t.kind = .attributeName
  · have hstep {s : String} {b : Builder} {t : Token} (ht : t.kind = .attributeName) :
        Builder.step s b t inDtd = attributeName s b t := by
      simp only [Builder.step, ht]
    rw [hstep hname, hstep (hkind.trans hname), openAttribute_attributeName,
      openAttribute_attributeName, h.size, h.current, hopen]
    rcases withAttribute_mirrors (h.kindOf b.current) b.nodes.size with ⟨hk, hk'⟩ | ⟨m, m', hk, hk', -⟩ <;>
      rw [hk, hk']
    rfl
  · rw [Builder.openAttribute_step (t := t') (hkind ▸ hname), Builder.openAttribute_step hname, hkind,
      hopen]

/-! ## Two readings -/

/-- A builder reads on from a mirrored one. -/
structure Mirrored (f : Retouch) (b b' : Builder) : Prop extends Mirrors f b b' where
  openAttribute : b'.openAttribute = b.openAttribute

theorem Mirrored.step {p p' : Token × Lexer} (h : Mirrored f b b') (hkind : p'.1.kind = p.1.kind)
    (hdtd : p'.2.inDtd = p.2.inDtd)
    (hs : f.Suits b b' p.1.kind (p.1.written s) (p'.1.written s')) :
    Mirrored f (step s b p.1 p.2.inDtd) (step s' b' p'.1 p'.2.inDtd) := by
  rw [hdtd]
  exact ⟨h.toMirrors.step hkind (fun _ => h.openAttribute) hs, h.openAttribute_step h.openAttribute hkind⟩

theorem Mirrors.isOpenAs (h : Mirrors f b b') (name : String) (id : Nat)
    (hf : ∀ t, f.onTag id t = t) : b'.isOpenAs name id = b.isOpenAs name id := by
  have hkind := h.kindOf id
  unfold Builder.isOpenAs
  cases hk : b.kindOf id with
  | element e =>
    obtain ⟨e', hk', he⟩ := (hk ▸ hkind).ofElement
    have htag : e'.tag = f.onTag id e.tag := (Element.mk.inj he).1
    have hclosed : e'.closed = e.closed := (Element.mk.inj he).2.2.2.2.2.2.2.2.1
    rw [hk']
    dsimp only
    rw [htag, hclosed, hf]
  | _ =>
    have hne := hkind.ne_element (by simp [hk])
    split
    · rename_i e he
      exact absurd he (hne e)
    · rfl

theorem suits_default (h : Mirrors {} b b') (kind : Token.Kind) (w : String) :
    Retouch.Suits {} b b' kind w w := by
  refine ⟨fun _ => rfl, fun _ => rfl, fun _ => ⟨fun _ => rfl, ?_⟩, fun _ => rfl, fun _ => rfl,
    fun _ _ _ _ => rfl, fun _ _ _ _ => rfl⟩
  exact congrArg (List.find? · _) (funext fun id => h.isOpenAs w id fun _ => rfl)

/-- Mirrored builders stay so along two readings whose tokens correspond, if each pair of these fits
the change. -/
theorem Mirrored.behind {R : Token × Lexer → Token × Lexer → Prop} (h : Mirrored f b b')
    (hl : List.Forall₂ R l l')
    (hs : ∀ l₁ p l₂ p' b₁', l = l₁ ++ p :: l₂ → R p p' → Mirrored f (Builder.behind s l₁ b) b₁' →
      p'.1.kind = p.1.kind ∧ p'.2.inDtd = p.2.inDtd ∧
        f.Suits (Builder.behind s l₁ b) b₁' p.1.kind (p.1.written s) (p'.1.written s')) :
    Mirrored f (Builder.behind s l b) (Builder.behind s' l' b') := by
  induction hl generalizing b b' with
  | nil => exact h
  | @cons p p' l l' hp hl ih =>
    obtain ⟨hkind, hdtd, hsuits⟩ := hs [] p l p' b' rfl hp h
    exact ih (h.step hkind hdtd hsuits) fun l₁ q l₂ q' b₁' hsplit hq =>
      hs (p :: l₁) q l₂ q' b₁' (by rw [hsplit]; rfl) hq

theorem Mirrored.behind_same (h : Mirrored {} b b') (hl : List.Forall₂ (SameToken s s') l l') :
    Mirrored {} (Builder.behind s l b) (Builder.behind s' l' b') :=
  h.behind hl fun _ p _ _ _ _ hp hm =>
    ⟨hp.kind, hp.inDtd, hp.written ▸ suits_default hm.toMirrors p.1.kind (p.1.written s)⟩

theorem mirrored_start (f : Retouch) (s s' : String) :
    Mirrored f (start s false) (start s' false) := by
  refine ⟨⟨fun id => ?_, rfl, rfl, rfl, rfl⟩, rfl⟩
  rcases id with _ | id <;> rfl

theorem Mirrors.atEnd (h : Mirrors f b b') (hf : ∀ id, f.onTag id none = none) :
    Mirrors f (Builder.atEnd s b) (Builder.atEnd s' b') :=
  (h.flushEndTag rfl (hf _)).same (foldl_extend_same ..) (foldl_extend_same ..)

end Builder

end XmlAssist
