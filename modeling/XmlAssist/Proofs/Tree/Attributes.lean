import XmlAssist.Proofs.Tree.Covering
import XmlAssist.Proofs.Tree.Quoting
import XmlAssist.Proofs.Tree.Tags

/-!
# Attributes beside children

Attributes are numbered like the nodes of the tree, though they are not in it. An attribute is still read while it is
the last node of all, and nothing else comes back to it; so whatever comes behind it starts behind it. A child that its
owner had before it has been left (`Builder.Beside`). So an attribute and a child of its owner do not overlap
(`Document.attribute_beside_child`).
-/

namespace XmlAssist

open Node
open Text (size)
open Lexer (Leads)

namespace Builder

variable {s : String} {x y : Lexer} {l : List (Token × Lexer)} {b b' : Builder} {t : Token} {a c p : Nat} {n m : Node}
variable {inDtd : Bool}

/-! ## Tokens that are not about an attribute -/

section forget

theorem kindOf_forget (b : Builder) (id : Nat) : kindOf { b with openAttribute := none } id = b.kindOf id := rfl

theorem nodes_onDoctype_forget (f : Doctype → Doctype) :
    ({ b with openAttribute := none }.onDoctype t f).nodes = (b.onDoctype t f).nodes := by
  simp only [onDoctype, kindOf_forget]
  split
  · split <;> rfl
  · rfl

theorem leaveDeclaration_forget :
    { b with openAttribute := none }.leaveDeclaration = { b.leaveDeclaration with openAttribute := none } := by
  simp only [leaveDeclaration]
  split <;> rfl

theorem leaveClosedElement_forget :
    { b with openAttribute := none }.leaveClosedElement = { b.leaveClosedElement with openAttribute := none } := by
  simp only [leaveClosedElement, kindOf_forget]
  split
  · split <;> rfl
  · rfl

theorem nodes_openDeclaration_forget (body : Declaration.Body) :
    ({ b with openAttribute := none }.openDeclaration t body).nodes = (b.openDeclaration t body).nodes := by
  simp only [openDeclaration, leaveDeclaration_forget, leaveClosedElement_forget]
  rfl

theorem nodes_declarationParameter_forget (kind : Token.DtdKind) :
    (declarationParameter s { b with openAttribute := none } kind t).nodes =
      (declarationParameter s b kind t).nodes := by
  unfold declarationParameter
  dsimp only
  split
  · rfl
  · by_cases hcontent : kind = .contentOpen
    · simp only [hcontent, if_true, kindOf]
      split <;> rfl
    · simp only [hcontent, if_false, kindOf]
      split <;> rfl

theorem nodes_dtdToken_forget (kind : Token.DtdKind) :
    (dtdToken s { b with openAttribute := none } kind t inDtd).nodes = (dtdToken s b kind t inDtd).nodes := by
  cases kind with
  | doctypeOpen => rfl
  | subsetOpen | doctypeName | doctypePublic | doctypeSystem | doctypePublicId | doctypeSystemId =>
    exact nodes_onDoctype_forget _
  | subsetClose =>
    simp only [dtdToken, leaveDeclaration_forget]
    exact nodes_onDoctype_forget _
  | doctypeClose =>
    simp only [dtdToken, leaveDeclaration_forget]
    split
    · exact nodes_onDoctype_forget _
    · rfl
  | elementOpen | attlistOpen | entityOpen | notationOpen => exact nodes_openDeclaration_forget _
  | declarationClose =>
    simp only [dtdToken, kindOf_forget]
    split
    · split <;> rfl
    · rfl
  | unrecognized =>
    simp only [dtdToken, unrecognized, kindOf_forget]
    split
    · split <;> rfl
    · rfl
  | _ => exact nodes_declarationParameter_forget _

theorem nodes_closeNearest_forget (start : Nat) :
    (closeNearest s { b with openAttribute := none } start t).nodes = (closeNearest s b start t).nodes := by
  cases hfind : (chain b.nodes b.current).find? (b.isOpenAs (t.written s)) with
  | none =>
    rw [closeNearest_of_none hfind, closeNearest_of_none (b := { b with openAttribute := none }) hfind]
    rfl
  | some c =>
    obtain ⟨e, hkind, -⟩ := element_of_isOpenAs (List.find?_some hfind)
    have hforget : (chain b.nodes b.current).find? (isOpenAs { b with openAttribute := none } (t.written s)) = some c :=
      hfind
    simp only [closeNearest, hfind, hforget, closeAt_eq hkind, closeAt_eq (b := { b with openAttribute := none }) hkind]
    rfl

theorem nodes_step_forget (hkind : t.kind ≠ .assign ∧ t.kind ≠ .attributeValue) :
    (step s { b with openAttribute := none } t inDtd).nodes = (step s b t inDtd).nodes := by
  obtain ⟨kind, i, j, fault⟩ := t
  cases kind with
  | assign | attributeValue => simp at hkind
  | attributeName =>
    simp only [step, attributeName, kindOf_forget]
    split <;> rfl
  | text | commentOpen | cdataOpen | instructionOpen | startTagOpen | endTagOpen => rfl
  | blank | eos => rfl
  | endTagClose =>
    simp only [step, tagToken, flushEndTag, kindOf_forget]
    split
    · split <;> rfl
    · cases b.kindOf b.current <;> first | rfl | (dsimp only; split <;> rfl)
  | endTagName => exact nodes_closeNearest_forget (b := { b with endTagOpen := none }) _
  | dtd kind => exact nodes_dtdToken_forget kind
  | unknown =>
    simp only [step, tagToken, kindOf_forget]
    cases b.kindOf b.current <;> first | rfl | (dsimp only; split <;> rfl)
  | _ => cases hk : b.kindOf b.current <;> simp only [step, tagToken, sectionToken, kindOf_forget, hk] <;> rfl

theorem nodes_atEnd_forget : (atEnd s { b with openAttribute := none }).nodes = (atEnd s b).nodes := by
  simp only [atEnd, foldl_extend, flushEndTag]
  cases b.endTagOpen <;> rfl

end forget

/-! ## One token -/

theorem kindOf_of_isAttribute (hn : b.nodes[a]? = some n) (hattr : n.isAttribute = true) :
    ∃ A, b.kindOf a = .attribute A := by
  rw [isAttribute, attribute?, ← kindOf_eq hn] at hattr
  split at hattr
  · exact ⟨_, ‹_›⟩
  · cases hattr

theorem isAttribute_of_kindOf {A : Attribute} (hn : b.nodes[a]? = some n) (hkind : b.kindOf a = .attribute A) :
    n.isAttribute = true := by
  rw [kindOf_eq hn] at hkind
  simp [isAttribute, attribute?, hkind]

theorem isAttribute_step (hn : b.nodes[a]? = some n) (hm : (step s b t inDtd).nodes[a]? = some m) :
    m.isAttribute = n.isAttribute := by
  have hchange := (changes_step s b t inDtd).old a (lt_size_of_getElem? hn)
  rw [kindOf_eq hn, kindOf_eq hm] at hchange
  rw [isAttribute, isAttribute, attribute?, attribute?]
  generalize n.kind = k at *
  generalize m.kind = k' at *
  cases hchange with
  | inner hk hk' => cases k <;> cases k' <;> first | rfl | (cases hk; done) | cases hk'
  | _ => rfl

theorem Follows.not_around_attribute (h : Follows s x b) (hn : b.nodes[a]? = some n) (hattr : n.isAttribute = true) :
    ¬ b.Around a := by
  intro haround
  obtain ⟨edge, hnested⟩ := h.fits.nested
  obtain ⟨n', hn', hfalse⟩ := hnested.arena.isAttribute_of_mem_chain hnested.current_node
    (h.fits.mem_chain_of_around haround)
  obtain rfl := Option.some.inj (hn.symm.trans hn')
  cases hattr.symm.trans hfalse

/-- An attribute that is no longer read stays as it is; one that is read is the last node, and only its value makes it
longer. -/
theorem Follows.attribute_step (h : Follows s x b) (hlt : x.pos < size s) (hn : b.nodes[a]? = some n)
    (hattr : n.isAttribute = true) :
    ∃ m, (step s b (x.step s).1 (x.step s).2.inDtd).nodes[a]? = some m ∧ m.parent = n.parent ∧
      m.span.start = n.span.start ∧
      (m.span.stop = n.span.stop ∨ ((x.step s).1.kind = .attributeValue ∧ a + 1 = b.nodes.size)) := by
  have hsize := lt_size_of_getElem? hn
  have haround := h.not_around_attribute hn hattr
  have hspares := spares_step s b (x.step s).1 (x.step s).2.inDtd
  by_cases hopen : (x.step s).1.kind = .assign ∨ (x.step s).1.kind = .attributeValue
  · obtain ⟨-, id, A, hid, hlast, hkind, -⟩ := h.awaits_of_kind hlt hopen
    by_cases hne : id = a
    · subst hne
      obtain ⟨m, hm, hparent, hstart, -⟩ := hspares.fixed id n hn
      refine ⟨m, hm, hparent, hstart, ?_⟩
      rcases hopen with hassign | hvalue
      · -- the `=` is not part of the attribute
        left
        have hstep : step s b (x.step s).1 (x.step s).2.inDtd = assign b (x.step s).1 := by
          simp only [step, hassign]
        rw [hstep, assign_eq hid hkind] at hm
        obtain ⟨k, hk, ⟨rfl, -⟩ | ⟨-, rfl⟩⟩ := getElem?_modify_eq_some hm
        · exact absurd .current haround
        · obtain ⟨k', hk', ⟨-, rfl⟩ | ⟨hne, -⟩⟩ := getElem?_modify_eq_some hk
          · obtain rfl := Option.some.inj (hn.symm.trans hk')
            rfl
          · exact absurd rfl hne
      · exact .inr ⟨hvalue, hlast⟩
    · have hsame := hspares.node a hsize haround fun hother => hne (Option.some.inj (hid.symm.trans hother))
      exact ⟨n, hsame.trans hn, rfl, rfl, .inl rfl⟩
  · have hforget : (step s { b with openAttribute := none } (x.step s).1 (x.step s).2.inDtd).nodes =
        (step s b (x.step s).1 (x.step s).2.inDtd).nodes := nodes_step_forget (not_or.mp hopen)
    have haround' : ¬ Around { b with openAttribute := none } a := fun ha =>
      (((Spares.forget b).around a ha).elim haround) (Nat.not_le_of_lt hsize)
    have hsame := (spares_step s { b with openAttribute := none } (x.step s).1 (x.step s).2.inDtd).node a hsize
      haround' (by rintro ⟨⟩)
    exact ⟨n, hforget ▸ hsame.trans hn, rfl, rfl, .inl rfl⟩

theorem Follows.size_attributeValue (h : Follows s x b) (hlt : x.pos < size s)
    (hkind : (x.step s).1.kind = .attributeValue) :
    (step s b (x.step s).1 (x.step s).2.inDtd).nodes.size = b.nodes.size := by
  obtain ⟨-, id, A, hid, -, hA, -⟩ := h.awaits_of_kind hlt (.inr hkind)
  have hstep : step s b (x.step s).1 (x.step s).2.inDtd = attributeValue s b (x.step s).1 := by
    simp only [step, hkind]
  rw [hstep, attributeValue_eq hid hA]
  simp [Builder.extend, Builder.update, Builder.modify]

theorem Follows.new_attribute (h : Follows s x b) (hlt : x.pos < size s)
    (hm : (step s b (x.step s).1 (x.step s).2.inDtd).nodes[a]? = some m) (hattr : m.isAttribute = true)
    (hle : b.nodes.size ≤ a) :
    (x.step s).1.kind = .attributeName ∧ a = b.nodes.size ∧
      (step s b (x.step s).1 (x.step s).2.inDtd).nodes.size = b.nodes.size + 1 ∧
      m.parent = some b.current ∧ m.span.start = x.pos := by
  obtain ⟨A, hA⟩ := kindOf_of_isAttribute hm hattr
  have hnew := (changes_step s b (x.step s).1 (x.step s).2.inDtd).new a hle
  rw [hA] at hnew
  obtain ⟨hkind, rfl⟩ : (x.step s).1.kind = .attributeName ∧ a = b.nodes.size := by
    cases hnew
    · exact ⟨‹_›, ‹_›⟩
    · rename_i hother _
      cases hother
  obtain ⟨hsize, -⟩ := h.attributeName hlt hkind
  refine ⟨hkind, rfl, hsize, ?_⟩
  have hstep : step s b (x.step s).1 (x.step s).2.inDtd = Builder.attributeName s b (x.step s).1 := by
    simp only [step, hkind]
  rw [hstep] at hm hsize
  cases howner : withAttribute b.nodes.size (b.kindOf b.current) with
  | none =>
    simp only [Builder.attributeName, howner] at hsize
    omega
  | some k =>
    rw [attributeName_eq howner] at hm
    simp only [getElem?_grow, if_true] at hm
    obtain rfl := Option.some.inj hm
    exact ⟨rfl, Leads.start_step h.boundary hlt⟩

theorem Follows.endTagOpen_eq_none (h : Follows s x b) (hlt : x.pos < size s)
    (hkind : (x.step s).1.kind = .attributeName ∨ (x.step s).1.kind = .attributeValue) :
    (step s b (x.step s).1 (x.step s).2.inDtd).endTagOpen = none := by
  obtain ⟨z, hz, -, -, hreads⟩ := h.exists_reads hlt
  rw [Option.eq_none_iff_forall_ne_some]
  intro o ho
  have hmode := (h.next hlt).2.fits.mode_of_endTagOpen ho
  rcases hkind with hkind | hkind <;> rw [hkind] at hreads
  · rw [hreads.mode_of_attributeName.2, Lexer.moved_mode] at hmode
    rcases hmode with hmode | hmode <;> cases hmode
  · rw [hreads.mode_of_attributeValue.2, Lexer.moved_mode, Lexer.tagMode] at hmode
    split at hmode <;> rcases hmode with hmode | hmode <;> cases hmode

/-! ## Along the tokens -/

/-- What comes behind an attribute starts where it has ended, and a child that its owner had before it has been left
where it starts. -/
structure Beside (b : Builder) : Prop where
  later : ∀ {a c : Nat} {n m : Node}, b.nodes[a]? = some n → n.isAttribute = true →
    b.nodes[c]? = some m → a < c →
    n.span.stop ≤ m.span.start
  endTagOpen : ∀ {a o : Nat} {n : Node}, b.nodes[a]? = some n → n.isAttribute = true → b.endTagOpen = some o →
    n.span.stop ≤ o
  earlier : ∀ {a c p : Nat} {n m : Node}, b.nodes[a]? = some n → n.isAttribute = true → n.parent = some p →
    b.nodes[c]? = some m → m.isAttribute = false → m.parent = some p → c < a →
    ¬ b.Around c ∧ m.span.stop ≤ n.span.start

section beside
variable (h : b.Beside) (hc : b.Covering 0 0) (hf : Follows s x b)
include h hc hf

theorem Beside.covering (hn : b.nodes[a]? = some n) (hattr : n.isAttribute = true) :
    b.Covering b.nodes.size n.span.stop ∧ n.span.stop ≤ x.pos := by
  refine ⟨⟨hc.covers, fun hm hle => absurd (lt_size_of_getElem? hm) (Nat.not_lt_of_le hle), fun o ho => ?_,
    hc.contentStart⟩, ?_⟩
  · exact h.endTagOpen hn hattr ho
  · obtain ⟨edge, hle, hnested⟩ := hf.fits.exists_nested
    refine Nat.le_trans (hnested.inner hn (hnested.top_lt hn ?_ ?_)).2 hle
    · intro hk
      simp [isAttribute, attribute?, hk] at hattr
    · cases hk : n.kind <;> simp_all [isAttribute, attribute?, isDoctype, doctype?]

theorem Beside.step (ha : b.Attributive) (hlt : x.pos < size s) :
    (step s b (x.step s).1 (x.step s).2.inDtd).Beside := by
  have hspares := spares_step s b (x.step s).1 (x.step s).2.inDtd
  have hpos := Leads.start_step hf.boundary hlt
  -- an attribute was there, or it is the last node
  have hattribute {a : Nat} {m : Node} (hm : (Builder.step s b (x.step s).1 (x.step s).2.inDtd).nodes[a]? = some m)
      (hattr : m.isAttribute = true) : (∃ n, b.nodes[a]? = some n ∧ n.isAttribute = true ∧ m.parent = n.parent ∧
        m.span.start = n.span.start ∧ m.span.stop = n.span.stop) ∨
      ((Builder.step s b (x.step s).1 (x.step s).2.inDtd).nodes.size = a + 1 ∧
        (Builder.step s b (x.step s).1 (x.step s).2.inDtd).endTagOpen = none) := by
    rcases Nat.lt_or_ge a b.nodes.size with hold | hnew
    · have hn := Array.getElem?_eq_getElem hold
      have hattr' := (isAttribute_step hn hm).symm.trans hattr
      obtain ⟨m', hm', hparent, hstart, hstop | ⟨hkind, hlast⟩⟩ := hf.attribute_step hlt hn hattr'
      · obtain rfl := Option.some.inj (hm.symm.trans hm')
        exact .inl ⟨_, hn, hattr', hparent, hstart, hstop⟩
      · exact .inr ⟨(hf.size_attributeValue hlt hkind).trans hlast.symm, hf.endTagOpen_eq_none hlt (.inr hkind)⟩
    · obtain ⟨hkind, rfl, hsize, -⟩ := hf.new_attribute hlt hm hattr hnew
      exact .inr ⟨hsize, hf.endTagOpen_eq_none hlt (.inl hkind)⟩
  have hcovering {a : Nat} {n : Node} (hn : b.nodes[a]? = some n) (hattr : n.isAttribute = true) :
      (Builder.step s b (x.step s).1 (x.step s).2.inDtd).Covering b.nodes.size n.span.stop := by
    obtain ⟨hcovers, hle⟩ := h.covering hc hf hn hattr
    exact hcovers.step (hf.startsBefore hlt) (hpos ▸ hle) (hf.exists_endTagOpen hlt)
  refine ⟨fun {a c m k} hm hattr hk hlt' => ?_, fun {a o m} hm hattr ho => ?_,
    fun {a c p m k} hm hattr hmp hk hchild hkp hlt' => ?_⟩
  · rcases hattribute hm hattr with ⟨n, hn, hattr', -, -, hstop⟩ | ⟨hsize, -⟩
    · rw [hstop]
      rcases Nat.lt_or_ge c b.nodes.size with hold | hnew
      · have hk₀ := Array.getElem?_eq_getElem hold
        obtain ⟨k', hk', -, hstart, -⟩ := hspares.fixed c _ hk₀
        obtain rfl := Option.some.inj (hk.symm.trans hk')
        exact hstart ▸ h.later hn hattr' hk₀ hlt'
      · exact (hcovering hn hattr').later hk hnew
    · have := lt_size_of_getElem? hk
      omega
  · rcases hattribute hm hattr with ⟨n, hn, hattr', -, -, hstop⟩ | ⟨-, hnone⟩
    · exact hstop ▸ (hcovering hn hattr').endTagOpen o ho
    · cases hnone.symm.trans ho
  · -- the child was there before, and is not around
    obtain ⟨k₀, hk₀, hchild', haround, hstop⟩ :
        ∃ k₀, b.nodes[c]? = some k₀ ∧ k₀.isAttribute = false ∧ ¬ b.Around c ∧
        k₀.span.stop ≤ m.span.start := by
      rcases Nat.lt_or_ge a b.nodes.size with hold | hnew
      · have hn := Array.getElem?_eq_getElem hold
        have hattr' := (isAttribute_step hn hm).symm.trans hattr
        obtain ⟨m', hm', hparent, hstart, -⟩ := hf.attribute_step hlt hn hattr'
        obtain rfl := Option.some.inj (hm.symm.trans hm')
        have hk₀ := Array.getElem?_eq_getElem (Nat.lt_trans hlt' hold)
        have hchild' := (isAttribute_step hk₀ hk).symm.trans hchild
        obtain ⟨k', hk', hkparent, -⟩ := hspares.fixed c _ hk₀
        obtain rfl := Option.some.inj (hk.symm.trans hk')
        have hearlier := h.earlier hn hattr' (hparent ▸ hmp) hk₀ hchild' (hkparent ▸ hkp) hlt'
        exact ⟨_, hk₀, hchild', hearlier.1, hstart ▸ hearlier.2⟩
      · obtain ⟨-, rfl, -, howner, hstart⟩ := hf.new_attribute hlt hm hattr hnew
        obtain rfl := Option.some.inj (howner.symm.trans hmp)
        have hk₀ := Array.getElem?_eq_getElem hlt'
        have hchild' := (isAttribute_step hk₀ hk).symm.trans hchild
        obtain ⟨k', hk', hkparent, -⟩ := hspares.fixed c _ hk₀
        obtain rfl := Option.some.inj (hk.symm.trans hk')
        obtain ⟨edge, hle, hnested⟩ := hf.fits.exists_nested
        have hin := hnested.arena.parentAt_lt (parentAt_eq_some.mpr ⟨_, hk₀, hkparent ▸ hkp⟩)
        have htop := hnested.top_le
        refine ⟨_, hk₀, hchild', fun haround => ?_, ?_⟩
        · exact Nat.not_le_of_lt hin (le_of_mem_chain (hf.fits.mem_chain_of_around haround))
        · exact hstart ▸ Nat.le_trans (hnested.inner hk₀ (by omega)).2 hle
    have hsize := lt_size_of_getElem? hk₀
    have hsame := hspares.node c hsize haround fun hopen => by
      obtain ⟨A, hA⟩ := ha c hopen
      cases hchild'.symm.trans (isAttribute_of_kindOf hk₀ hA)
    obtain rfl := Option.some.inj ((hsame.trans hk₀).symm.trans hk)
    exact ⟨fun haround' => (hspares.around c haround').elim haround (Nat.not_le_of_lt hsize), hstop⟩

end beside

theorem Beside.behind (h : b.Beside) (hc : b.Covering 0 0) (ha : b.Attributive) (hf : Follows s x b)
    (hl : Leads s x l y) : (Builder.behind s l b).Beside := by
  induction hl generalizing b with
  | here => exact h
  | next hlt _ ih =>
    have hbefore := hf.startsBefore hlt
    exact ih (h.step hc hf ha hlt) (hc.step hbefore (Nat.zero_le _) (hf.exists_endTagOpen hlt)) (ha.step _ _)
      (hf.next hlt).2

theorem beside_start (s : String) (dtdFile : Bool) : (start s dtdFile).Beside := by
  have hnone {a : Nat} {n : Node} (hn : (start s dtdFile).nodes[a]? = some n) : n.isAttribute = false := by
    cases dtdFile with
    | false =>
      obtain ⟨-, rfl⟩ := getElem?_emptyDocument s hn
      rfl
    | true =>
      rcases (adds_fileDoctype s).get hn with ⟨-, rfl⟩ | ⟨-, -, rfl⟩ | ⟨hid, hlt, -⟩
      · rfl
      · rfl
      · exact absurd (Nat.lt_one_iff.mp hlt) hid
  refine ⟨fun hn hattr => ?_, fun hn hattr => ?_, fun hn hattr => ?_⟩ <;> cases (hnone hn).symm.trans hattr

theorem Beside.atEnd (h : b.Beside) (hc : b.Covering 0 0) (ha : b.Attributive) (hf : Follows s x b)
    (hn : (atEnd s b).nodes[a]? = some n) (hattr : n.isAttribute = true) (hp : n.parent = some p)
    (hm : (Builder.atEnd s b).nodes[c]? = some m) (hchild : m.isAttribute = false) (hmp : m.parent = some p) :
    n.span.stop ≤ m.span.start ∨ m.span.stop ≤ n.span.start := by
  have hspares := spares_atEnd s b
  have hretains := retains_atEnd s b
  have hsize : a < b.nodes.size := by
    refine Nat.lt_of_not_le fun hle => ?_
    obtain ⟨A, hA⟩ := kindOf_of_isAttribute hn hattr
    have hplain := hretains.new a hle
    rw [hA] at hplain
    exact hplain
  have hsame : b.nodes[a]? = some n := by
    have hn₀ := Array.getElem?_eq_getElem hsize
    have hattr₀ : b.nodes[a].isAttribute = true := by
      have hkind := hretains.old a hsize
      rw [kindOf_eq hn, kindOf_eq hn₀] at hkind
      rwa [isAttribute, attribute?, ← hkind]
    have haround : ¬ Around { b with openAttribute := none } a := fun haround =>
      ((Spares.forget b).around a haround).elim (hf.not_around_attribute hn₀ hattr₀) (Nat.not_le_of_lt hsize)
    rw [← nodes_atEnd_forget] at hn
    exact ((spares_atEnd s { b with openAttribute := none }).node a hsize haround (by rintro ⟨⟩)).symm.trans hn
  rcases Nat.lt_trichotomy a c with hlt | rfl | hlt
  · left
    rcases Nat.lt_or_ge c b.nodes.size with hold | hnew
    · have hm₀ := Array.getElem?_eq_getElem hold
      obtain ⟨m', hm', -, hstart, -⟩ := hspares.fixed c _ hm₀
      obtain rfl := Option.some.inj (hm.symm.trans hm')
      exact hstart ▸ h.later hsame hattr hm₀ hlt
    · exact (h.covering hc hf hsame hattr).1.atEnd.later hm hnew
  · obtain rfl := Option.some.inj (hn.symm.trans hm)
    cases hattr.symm.trans hchild
  · right
    obtain ⟨m₀, hm₀⟩ : ∃ m₀, b.nodes[c]? = some m₀ :=
      ⟨_, Array.getElem?_eq_getElem (Nat.lt_trans hlt hsize)⟩
    have hkind := hretains.old c (Nat.lt_trans hlt hsize)
    rw [kindOf_eq hm, kindOf_eq hm₀] at hkind
    have hchild₀ : m₀.isAttribute = false := by
      rwa [isAttribute, attribute?, ← hkind]
    obtain ⟨m', hm', hparent, -⟩ := hspares.fixed c _ hm₀
    obtain rfl := Option.some.inj (hm.symm.trans hm')
    obtain ⟨haround, hstop⟩ := h.earlier hsame hattr hp hm₀ hchild₀ (hparent ▸ hmp) hlt
    have hkept := hspares.node c (Nat.lt_trans hlt hsize) haround fun hopen => by
      obtain ⟨A, hA⟩ := ha c hopen
      cases hchild₀.symm.trans (isAttribute_of_kindOf hm₀ hA)
    obtain rfl := Option.some.inj ((hkept.trans hm₀).symm.trans hm)
    exact hstop

end Builder

namespace Document

open Builder

variable {text uri : String} {a c p : Nat}

/-- **An attribute and a child of its owner do not overlap**, whatever the text and the address. -/
theorem attribute_beside_child (ha : Attr (parse text uri).nodes p a) (hc : Child (parse text uri).nodes p c) :
    ((parse text uri).span a).stop ≤ ((parse text uri).span c).start ∨
      ((parse text uri).span c).stop ≤ ((parse text uri).span a).start := by
  have hf := follows_start text (isDtdUri uri)
  obtain ⟨y, hl, hpos⟩ := Leads.exists_end text _ hf.boundary
  have hattributive := attributive_start text (isDtdUri uri)
  have hcovering := covering_start text (isDtdUri uri)
  have hbeside := (beside_start text (isDtdUri uri)).behind hcovering hattributive hf hl
  have hnodes : (parse text uri).nodes =
      (Builder.atEnd text (run text (if isDtdUri uri then .declarations else .document)
        (start text (isDtdUri uri)))).nodes := build_eq text (isDtdUri uri)
  obtain ⟨n, hn, hp, hattr⟩ := ha
  obtain ⟨m, hm, hmp, hchild⟩ := hc
  rw [span_eq hn, span_eq hm]
  rw [hnodes, run_eq_behind hl hf.boundary hpos] at hn hm
  exact hbeside.atEnd (hcovering.behind hf (Nat.zero_le _) hl) (hattributive.behind _) (hf.behind hl) hn hattr hp hm
    hchild hmp

end Document

end XmlAssist
